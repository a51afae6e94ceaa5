import Highlight.Proofs.LineCache.Coherence

/-!
# Reports of edits that were not made

A host may report an edit twice, or report one that it never made. While the document stays
as it is such a report does no harm: either the cache forgets the records from the first
touched line on, or the report is followed, which happens only if it replaces lines by as
many (`report_unmoved_cases`). These lines are then classified again, as they were. So any
number of reports leaves a coherent cache coherent, and no later read can tell the cache from
the one that was never told.
-/

namespace Highlight

namespace LineEdit

variable {α : Type} {e : LineEdit} {lines : List α}

theorem splice_self (h : e.inserted = e.removed) :
    e.splice lines ((lines.drop e.start).take e.inserted) = lines := by
  have hbehind : lines.drop e.oldStop = (lines.drop e.start).drop e.inserted := by
    rw [List.drop_drop, oldStop, h]
  rw [splice, hbehind, List.append_assoc, List.take_append_drop, List.take_append_drop]

theorem fits_self (h : e.inserted = e.removed) (hstop : e.newStop ≤ lines.length) :
    e.Fits lines ((lines.drop e.start).take e.inserted) := by
  rw [newStop] at hstop
  refine ⟨?_, ?_⟩
  · rw [oldStop, ← h]
    exact hstop
  · rw [List.length_take, List.length_drop]
    omega

end LineEdit

/-- The edit was announced for a document with as many lines, and fits in it. -/
def PendingEdit.AnnouncedFor (p : PendingEdit) (source : List Text) : Prop :=
  p.lineCount = source.length ∧ p.edit.oldStop ≤ source.length

namespace LineCache

def reportAll (c : LineCache) (source : List Text) (es : List LineEdit) : LineCache :=
  es.foldl (fun c e => (c.report source e).2) c

variable {c : LineCache} {source : List Text} {e : LineEdit}

theorem report_unmoved_cases (hp : ∀ p, c.pending = some p → p.AnnouncedFor source) :
    (e.inserted = e.removed ∧
      c.report source e = LineCache.apply { c with pending := none } source e) ∨
    (c.report source e).2 =
      LineCache.invalidateFrom { c with pending := none } (c.firstTouched e) := by
  rcases c.report_cases source e with ⟨hr, hfirst⟩ | hr
  · by_cases hmoved : e.inserted = e.removed
    · exact .inl ⟨hmoved, hr⟩
    · right
      rw [hfirst]
      unfold report
      cases hpending : c.pending with
      | none =>
        rw [← LineEdit.kind_eq_change_iff] at hmoved
        simp only [if_neg hmoved]
      | some p =>
        obtain ⟨hcount, hstop⟩ := hp p hpending
        by_cases he : p.edit = e
        · -- The announced size less the removed and with the inserted lines is another one.
          subst he
          have hmismatch : p.lineCount - p.edit.removed + p.edit.inserted ≠ source.length := by
            rw [LineEdit.oldStop] at hstop
            omega
          simp only [if_true, if_neg hmismatch]
        · have hmin : min p.edit.start e.start = e.start := by
            simpa only [firstTouched, hpending] using hfirst
          simp only [if_neg he, hmin]
  · exact .inr hr

theorem coherent_apply_unmoved (h : c.Coherent source) (hmoved : e.inserted = e.removed) :
    (c.apply source e).2.Coherent source := by
  by_cases hstop : source.length < e.newStop
  · rw [apply, if_pos hstop]
    exact coherent_invalidateFrom h rfl
  · have hfits := LineEdit.fits_self hmoved (Nat.le_of_not_lt hstop)
    have happly := coherent_apply h hfits
    rwa [LineEdit.splice_self hmoved] at happly

theorem coherent_report_unmoved (h : c.Coherent source)
    (hp : ∀ p, c.pending = some p → p.AnnouncedFor source) :
    (c.report source e).2.Coherent source := by
  have hidle : Coherent { c with pending := none } source := h.congr rfl rfl
  rcases report_unmoved_cases (e := e) hp with ⟨hmoved, hr⟩ | hr
  · rw [hr]
    exact coherent_apply_unmoved hidle hmoved
  · rw [hr]
    exact coherent_invalidateFrom hidle rfl

theorem pending_apply (c : LineCache) (source : List Text) (e : LineEdit) :
    (c.apply source e).2.pending = c.pending := by
  unfold apply
  split
  · rfl
  · split <;> rfl

theorem pending_report (c : LineCache) (source : List Text) (e : LineEdit) :
    (c.report source e).2.pending = none := by
  rcases c.report_cases source e with ⟨hr, -⟩ | hr
  · rw [hr, pending_apply]
  · rw [hr]
    rfl

theorem announcedFor_report (c : LineCache) (source : List Text) (e : LineEdit) :
    ∀ p, (c.report source e).2.pending = some p → p.AnnouncedFor source := by
  intro p hp
  cases (c.pending_report source e).symm.trans hp

theorem language_reportAll (c : LineCache) (source : List Text) (es : List LineEdit) :
    (c.reportAll source es).language = c.language := by
  induction es generalizing c with
  | nil => rfl
  | cons e es ih => exact (ih _).trans (c.language_report source e)

theorem coherent_reportAll (h : c.Coherent source)
    (hp : ∀ p, c.pending = some p → p.AnnouncedFor source) (es : List LineEdit) :
    (c.reportAll source es).Coherent source := by
  induction es generalizing c with
  | nil => exact h
  | cons e es ih =>
    -- Only the first report can find an announced edit.
    exact ih (coherent_report_unmoved h hp) (c.announcedFor_report source e)

end LineCache

namespace CacheSession

variable {s s' q q' : CacheSession} {calls : List CacheCall}

theorem source_perform (h : s.source = q.source) (call : CacheCall) :
    (s.perform call).source = (q.perform call).source := by
  cases call with
  | change e inserted => exact congrArg (e.splice · inserted) h
  | _ => exact h

theorem Runs.source_eq (hs : Runs s calls s') (hq : Runs q calls q')
    (h : s.source = q.source) : s'.source = q'.source := by
  induction hs generalizing q with
  | nil s =>
    cases hq
    exact h
  | cons _ _ ih =>
    cases hq with
    | cons _ hq => exact ih hq (source_perform h _)

/-- After the same calls every read of one session answers as that of the other one. -/
def Indistinguishable (s q : CacheSession) : Prop :=
  ∀ calls s' q', Runs s calls s' → Runs q calls q' →
    ∀ line, (q'.cache.spans q'.source line).1 = (s'.cache.spans s'.source line).1

theorem indistinguishable_of_coherent (hs : s.cache.Coherent s.source)
    (hq : q.cache.Coherent q.source) (hsource : s.source = q.source)
    (hlanguage : s.cache.language = q.cache.language) : Indistinguishable s q := by
  intro calls s' q' hruns hruns' line
  rw [LineCache.spans_eq_answer (hruns.coherent hs), LineCache.spans_eq_answer (hruns'.coherent hq),
    hruns.language_eq, hruns'.language_eq, hlanguage, hruns.source_eq hruns' hsource]

end CacheSession

namespace LineCache

variable {c : LineCache} {source : List Text}

/-- Reports do no harm while the document stays as it is, be there an announced edit or not:
the cache stays coherent, and reads answer as before. Nor does it matter if the report of a
change is repeated. -/
theorem reportAll_harmless (h : c.Coherent source)
    (hp : ∀ p, c.pending = some p → p.AnnouncedFor source) :
    (∀ es, (c.reportAll source es).Coherent source ∧
      (∀ line, ((c.reportAll source es).spans source line).1 = (c.spans source line).1) ∧
      CacheSession.Indistinguishable ⟨source, c⟩ ⟨source, c.reportAll source es⟩) ∧
    ∀ e inserted, e.Fits source inserted →
      let after := e.splice source inserted
      let reported := (c.report after e).2
      CacheSession.Indistinguishable ⟨after, reported⟩ ⟨after, (reported.report after e).2⟩ := by
  constructor
  · intro es
    have hall := coherent_reportAll h hp es
    refine ⟨hall, ?_, ?_⟩
    · intro line
      rw [spans_eq_answer hall, spans_eq_answer h, language_reportAll]
    · exact CacheSession.indistinguishable_of_coherent h hall rfl
        (c.language_reportAll source es).symm
  · intro e inserted he after reported
    have hreported : reported.Coherent after := coherent_report h he
    have hagain : (reported.report after e).2.Coherent after :=
      coherent_report_unmoved hreported (c.announcedFor_report after e)
    exact CacheSession.indistinguishable_of_coherent hreported hagain rfl
      (reported.language_report after e).symm

theorem reportAll_harmless_announced :
    let source : List Text := [[';'], ['/', '*'], [';'], ['*', '/'], [';']]
    let c := ((LineCache.spans { language := Zig.language } source 3).2.announce source ⟨1, 2, 0⟩).2
    let reported := c.reportAll source [⟨1, 2, 0⟩, ⟨0, 1, 1⟩, ⟨2, 0, 2⟩, ⟨4, 9, 9⟩]
    let after := LineEdit.splice ⟨1, 0, 1⟩ source [['/', '*']]
    let once := (c.report after ⟨1, 0, 1⟩).2
    c.pending = some ⟨⟨1, 2, 0⟩, 5, true⟩ ∧ reported.Coherent source ∧
      (∀ line, (reported.spans source line).1 = (c.spans source line).1) ∧
      (reported.spans source 2).1 = .ok [⟨0, 1, .comment⟩] ∧
      CacheSession.Indistinguishable ⟨source, c⟩ ⟨source, reported⟩ ∧
      CacheSession.Indistinguishable ⟨after, once⟩ ⟨after, (once.report after ⟨1, 0, 1⟩).2⟩ := by
  intro source c reported after once
  have hread : (LineCache.spans { language := Zig.language } source 3).2.Coherent source :=
    coherent_spans (coherent_of_lines_eq_nil rfl) 3
  have hc : c.Coherent source := hread.congr (lines_announce _ _ _) (language_announce _ _ _)
  have hpending : c.pending = some ⟨⟨1, 2, 0⟩, 5, true⟩ := by decide +kernel
  have hp : ∀ p, c.pending = some p → p.AnnouncedFor source := by
    intro p heq
    rw [hpending] at heq
    cases heq
    exact ⟨rfl, by decide⟩
  obtain ⟨hreports, hrepeated⟩ := reportAll_harmless hc hp
  obtain ⟨hcoherent, hspans, hsame⟩ := hreports [⟨1, 2, 0⟩, ⟨0, 1, 1⟩, ⟨2, 0, 2⟩, ⟨4, 9, 9⟩]
  have hpinned : (c.spans source 2).1 = .ok [⟨0, 1, .comment⟩] :=
    (spans_eq_answer hc 2).trans (by decide +kernel)
  exact ⟨hpending, hcoherent, hspans, (hspans 2).trans hpinned, hsame, hrepeated ⟨1, 0, 1⟩ [['/', '*']] ⟨by decide, rfl⟩⟩

end LineCache

end Highlight
