import Highlight.Proofs.LineCache.Coherence

/-!
# Rejected reports

A report is rejected if it is not the announced one, if the document has not as many lines
as the edit says, or if the edit reaches behind the end of the document. In each of these
cases the cache keeps exactly the records in front of the first line that the edit or the
announced one touches (`report_of_error`). Whatever else happened to the document, these
records are still right as long as the lines in front of that line are, and all others are
computed again when they are asked for.
-/

namespace Highlight

namespace LineCache

variable {c : LineCache} {source after : List Text} {e : LineEdit} {err : CacheError}

theorem apply_of_error (h : (c.apply source e).1 = .error err) :
    (c.apply source e).2 = c.invalidateFrom e.start := by
  by_cases hstop : source.length < e.newStop
  · rw [apply, if_pos hstop]
  · rw [apply, if_neg hstop] at h
    split at h <;> cases h

theorem report_of_error (h : (c.report source e).1 = .error err) :
    (c.report source e).2 =
      LineCache.invalidateFrom { c with pending := none } (c.firstTouched e) := by
  rcases c.report_cases source e with ⟨hr, hfirst⟩ | hr
  · rw [hr] at h
    rw [hr, hfirst, apply_of_error h]
  · exact hr

/-- After a rejected report the cache is coherent with any document that has the lines in
front of the first touched one, and every read answers as a fresh classification would,
also after further calls. -/
theorem coherent_report_of_error (h : c.Coherent source)
    (hsame : source.take (c.firstTouched e) <+: after)
    (herr : (c.report after e).1 = .error err) :
    let rejected := (c.report after e).2
    rejected.Coherent after ∧ rejected.lines.length ≤ c.firstTouched e ∧
      rejected.pending = none ∧
      ∀ calls s, CacheSession.Runs ⟨after, rejected⟩ calls s →
        ∀ line, (s.cache.spans s.source line).1 = c.language.answer s.source line := by
  intro rejected
  have hrejected : rejected = LineCache.invalidateFrom { c with pending := none }
      (c.firstTouched e) := report_of_error herr
  have hidle : Coherent { c with pending := none } source := h.congr rfl rfl
  have hc : rejected.Coherent after := by
    rw [hrejected]
    exact coherent_invalidateFrom_of_prefix hidle hsame
  refine ⟨hc, ?_, ?_, ?_⟩
  · rw [hrejected]
    exact List.length_take_le _ _
  · rw [hrejected]
    rfl
  · intro calls s hs line
    have hlanguage : s.cache.language = c.language := hs.language_eq.trans (language_report c after e)
    rw [spans_eq_answer (hs.coherent hc), hlanguage]

theorem coherent_report_of_error_unannounced :
    let source : List Text := [[';'], ['/', '*'], [';']]
    let after : List Text := [[';'], [';'], [], ['/', '*'], []]
    let c := ((LineCache.spans { language := Zig.language } source 2).2.announce source ⟨1, 1, 1⟩).2
    let rejected := (c.report after ⟨2, 1, 1⟩).2
    c.lines.length = 3 ∧ (c.report after ⟨2, 1, 1⟩).1 = .error (.unannounced ⟨2, 1, 1⟩ ⟨1, 1, 1⟩) ∧
      c.firstTouched ⟨2, 1, 1⟩ = 1 ∧ source.take 1 <+: after ∧
      rejected.Coherent after ∧ rejected.lines.length ≤ 1 ∧ rejected.pending = none ∧
      (∀ calls s, CacheSession.Runs ⟨after, rejected⟩ calls s →
        ∀ line, (s.cache.spans s.source line).1 = Zig.language.answer s.source line) ∧
      (c.spans source 2).1 = .ok [⟨0, 1, .comment⟩] ∧
      (rejected.spans after 1).1 = .ok [] ∧
      (rejected.spans after 3).1 = .ok [⟨0, 2, .comment⟩] := by
  intro source after c rejected
  have hread : (LineCache.spans { language := Zig.language } source 2).2.Coherent source :=
    coherent_spans (coherent_of_lines_eq_nil rfl) 2
  have hc : c.Coherent source := hread.congr (lines_announce _ _ _) (language_announce _ _ _)
  have herr : (c.report after ⟨2, 1, 1⟩).1 = .error (.unannounced ⟨2, 1, 1⟩ ⟨1, 1, 1⟩) := rfl
  have hsame : source.take 1 <+: after := by decide
  have hfirst : source.take (c.firstTouched ⟨2, 1, 1⟩) <+: after := hsame
  obtain ⟨hrejected, hlength, hidle, hruns⟩ := coherent_report_of_error hc hfirst herr
  have hbefore : (c.spans source 2).1 = .ok [⟨0, 1, .comment⟩] :=
    (spans_eq_answer hc 2).trans (by decide +kernel)
  have hfresh := hruns [] _ (.nil _)
  exact ⟨rfl, herr, rfl, hsame, hrejected, hlength, hidle, hruns, hbefore,
    (hfresh 1).trans (by decide +kernel), (hfresh 3).trans (by decide +kernel)⟩

end LineCache

end Highlight
