import Highlight.Proofs.LineCache.Repetition

/-!
# A cache that is read to its end

Reads add records to a cache, but they do not change what a read to the end of the document would
give: the records that are kept, right or wrong, and behind them those that follow from their last
state (`filled`). So whatever is read, and in whatever order, every line is answered from the same
list of records (`getElem?_extendTo`, `filled_extendTo`).
-/

namespace Highlight

namespace LineRecord

theorem carry_append (s : LineState) (rs qs : List LineRecord) :
    carry s (rs ++ qs) = carry (carry s rs) qs := by
  induction rs generalizing s with
  | nil => rfl
  | cons r rs ih => exact ih r.after

end LineRecord

theorem Language.append_recordsFrom_append (l : Language) (kept : List LineRecord)
    (ts us : List Text) :
    let more := kept ++ l.recordsFrom (LineRecord.stateAfter kept) ts
    kept ++ l.recordsFrom (LineRecord.stateAfter kept) (ts ++ us) =
      more ++ l.recordsFrom (LineRecord.stateAfter more) us := by
  intro more
  rw [l.recordsFrom_append, LineRecord.stateAfter_eq_carry more, LineRecord.carry_append,
    ← LineRecord.stateAfter_eq_carry kept, List.append_assoc]

namespace LineCache

/-- The records of all lines of a document, as reading them all would make them. -/
def filled (c : LineCache) (source : List Text) : List LineRecord :=
  (c.extendTo source source.length).lines

variable {c d : LineCache} {source : List Text}

theorem filled_eq (c : LineCache) (source : List Text) :
    c.filled source = c.lines.take source.length ++
      c.language.recordsFrom (LineRecord.stateAfter (c.lines.take source.length))
        (source.drop (c.lines.take source.length).length) := by
  simp only [filled, extendTo, List.take_length]

theorem filled_congr (hlines : d.lines = c.lines) (hlanguage : d.language = c.language) :
    d.filled source = c.filled source := by
  rw [filled_eq, filled_eq, hlines, hlanguage]

theorem length_filled (c : LineCache) (source : List Text) :
    (c.filled source).length = source.length := by
  rw [filled_eq, List.length_append, Language.length_recordsFrom, List.length_drop,
    List.length_take]
  omega

theorem lines_extendTo_eq_take (c : LineCache) (source : List Text) (n : Nat) :
    (c.extendTo source n).lines =
      (c.filled source).take (max (c.lines.take source.length).length n) := by
  rw [filled_eq]
  simp only [extendTo]
  generalize c.lines.take source.length = kept
  have hmore : max kept.length n - kept.length = n - kept.length := by omega
  rw [List.take_append, List.take_of_length_le (Nat.le_max_left _ _), hmore,
    Language.take_recordsFrom, List.drop_take]

theorem getElem?_extendTo (c : LineCache) (source : List Text) (line : Nat) :
    (c.extendTo source (line + 1)).lines[line]? = (c.filled source)[line]? := by
  rw [lines_extendTo_eq_take, List.getElem?_take, if_pos (by omega)]

theorem filled_extendTo (c : LineCache) (source : List Text) (n : Nat) :
    (c.extendTo source n).filled source = c.filled source := by
  have hkept := c.lines.length_take_le source.length
  rw [filled_eq, filled_eq]
  simp only [extendTo]
  generalize c.lines.take source.length = kept at hkept ⊢
  obtain ⟨us, hus⟩ : ∃ us, source.drop kept.length = (source.take n).drop kept.length ++ us := by
    have hsplit := List.take_append_drop (n - kept.length) (source.drop kept.length)
    rw [← List.drop_take] at hsplit
    exact ⟨_, hsplit.symm⟩
  rw [hus, c.language.append_recordsFrom_append]
  generalize hts : (source.take n).drop kept.length = ts at hus ⊢
  have hlength := congrArg List.length hus
  rw [List.length_append, List.length_drop] at hlength
  generalize hmore : kept ++ c.language.recordsFrom (LineRecord.stateAfter kept) ts = more
  have hcount : more.length = kept.length + ts.length := by
    rw [← hmore, List.length_append, Language.length_recordsFrom]
  have hrest : source.drop more.length = us := by
    rw [hcount, ← List.drop_drop, hus, List.drop_left]
  rw [List.take_of_length_le (by omega), hrest]

theorem filled_spans (c : LineCache) (source : List Text) (line : Nat) :
    (c.spans source line).2.filled source = c.filled source := by
  unfold spans
  split
  · rfl
  · exact c.filled_extendTo source (line + 1)

theorem Coherent.filled_eq (h : c.Coherent source) :
    c.filled source = c.language.records source := by
  rw [filled, lines_extendTo h.reflects, List.take_of_length_le (Nat.le_max_right _ _)]

/-- The records are those of the document, and an edit that stands announced is one of it. -/
structure Settled (c : LineCache) (source : List Text) : Prop where
  coherent : c.Coherent source
  announced : ∀ p, c.pending = some p → p.AnnouncedFor source

theorem settled_empty (l : Language) (source : List Text) : Settled { language := l } source :=
  ⟨coherent_of_lines_eq_nil rfl, nofun⟩

theorem Settled.spans (h : c.Settled source) (line : Nat) :
    (c.spans source line).2.Settled source := by
  refine ⟨coherent_spans h.coherent line, ?_⟩
  unfold LineCache.spans
  split <;> exact h.announced

theorem Settled.announce (h : c.Settled source) (e : LineEdit) :
    (c.announce source e).2.Settled source := by
  refine ⟨h.coherent.congr (c.lines_announce source e) (c.language_announce source e), ?_⟩
  rcases c.announce_cases source e with ⟨-, heq⟩ | ⟨hstop, touches, heq⟩
  · rw [heq]
    exact h.announced
  · rw [heq]
    rintro p hp
    cases hp
    exact ⟨rfl, hstop⟩

theorem Settled.report (h : c.Settled source) (e : LineEdit) :
    (c.report source e).2.Settled source :=
  ⟨coherent_report_unmoved h.coherent h.announced, c.announcedFor_report source e⟩

theorem settled_invalidateAll (c : LineCache) (source : List Text) :
    c.invalidateAll.Settled source :=
  ⟨coherent_of_lines_eq_nil rfl, nofun⟩

theorem Settled.filled_report (h : c.Settled source) (e : LineEdit) :
    (c.report source e).2.filled source = c.filled source := by
  rw [(h.report e).coherent.filled_eq, h.coherent.filled_eq, language_report]

end LineCache

end Highlight
