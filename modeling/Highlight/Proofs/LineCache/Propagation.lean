import Highlight.Proofs.LineCache.Coherence

/-!
# What an announced edit costs

An edit that was announced before it is reported is followed without loss: every line that
had a record and is left has one again. Its own lines are classified in any case. Behind it
a line is classified exactly if it starts in another state than before (`settle_count`):
as soon as one line starts in the state that it started in before, all lines behind it do.
-/

namespace Highlight

namespace LineRecord

def restarted (new old : List LineRecord) : List Nat :=
  (List.range old.length).filter fun k => (new[k]?).map before ≠ (old[k]?).map before

variable {r q : LineRecord} {rs qs : List LineRecord}

theorem restarted_take (rs : List LineRecord) (n : Nat) : restarted rs (rs.take n) = [] := by
  rw [restarted, List.filter_eq_nil_iff]
  intro k hk
  have hlt : k < n := by
    rw [List.mem_range, List.length_take] at hk
    omega
  simp [List.getElem?_take_of_lt hlt]

theorem length_restarted_cons (h : q.before ≠ r.before) :
    (restarted (r :: rs) (q :: qs)).length = (restarted rs qs).length + 1 := by
  have hhead : ((r :: rs)[0]?).map before ≠ ((q :: qs)[0]?).map before := by
    simpa using Ne.symm h
  rw [restarted, List.length_cons, List.range_succ_eq_map, List.filter_cons,
    if_pos (decide_eq_true hhead), List.length_cons, List.filter_map, List.length_map]
  rfl

end LineRecord

theorem Language.settle_count (l : Language) (s old : LineState) (ts : List Text) (n : Nat) :
    (l.settle s (l.recordsFrom old (ts.take n)) ts).2 =
      (LineRecord.restarted (l.recordsFrom s ts) (l.recordsFrom old (ts.take n))).length := by
  induction ts generalizing s old n with
  | nil => simp [recordsFrom, settle, LineRecord.restarted]
  | cons t ts ih =>
    cases n with
    | zero => rfl
    | succ n =>
      by_cases h : old = s
      · -- From equal states all later ones are equal too.
        subst h
        rw [← take_recordsFrom, LineRecord.restarted_take, recordsFrom, List.take_succ_cons,
          l.settle_of_eq (l.record_before old t)]
        rfl
      · have hhead : (l.record old t).before ≠ s := by rwa [record_before]
        have hrest : (l.record old t).before ≠ (l.record s t).before := by
          rwa [record_before, record_before]
        rw [List.take_succ_cons, recordsFrom, recordsFrom, l.settle_cons_of_ne hhead,
          LineRecord.length_restarted_cons hrest, ih]

namespace LineCache

/-- The cached lines behind an edit, counted from its end, that start in the document after
the edit in another state than they did before it. -/
def restarted (c : LineCache) (after : List Text) (e : LineEdit) : List Nat :=
  LineRecord.restarted ((c.language.records after).drop e.newStop) (c.lines.drop e.oldStop)

variable {c : LineCache} {source inserted : List Text} {e : LineEdit}

theorem settle_count_eq_length_restarted (h : c.Coherent source) (he : e.Fits source inserted) :
    (c.language.settle
      (LineRecord.stateAfter (c.language.records ((e.splice source inserted).take e.newStop)))
      (c.lines.drop e.oldStop) (source.drop e.oldStop)).2 =
      (c.restarted (e.splice source inserted) e).length := by
  rw [restarted, h.drop_lines, Language.settle_count, Language.drop_records,
    he.drop_newStop_splice]

theorem announce_of_ok {touches : Bool} (h : (c.announce source e).1 = .ok touches) :
    e.oldStop ≤ source.length ∧
      (c.announce source e).2 = { c with pending := some ⟨e, source.length, touches⟩ } := by
  rcases c.announce_cases source e with ⟨-, ha⟩ | ⟨hstop, touches', ha⟩
  · rw [ha] at h
    cases h
  · rw [ha] at h ⊢
    cases h
    exact ⟨hstop, rfl⟩

theorem report_announce_eq_apply {touches : Bool} (ha : (c.announce source e).1 = .ok touches)
    (hi : inserted.length = e.inserted) :
    (c.announce source e).2.report (e.splice source inserted) e =
      LineCache.apply { c with pending := none } (e.splice source inserted) e := by
  obtain ⟨hstop, hannounced⟩ := announce_of_ok ha
  have hcount : source.length - e.removed + e.inserted = (e.splice source inserted).length := by
    rw [LineEdit.Fits.length_splice ⟨hstop, hi⟩, LineEdit.newStop, LineEdit.oldStop]
    rw [LineEdit.oldStop] at hstop
    omega
  rw [hannounced, report]
  simp only [if_true, hcount]

/-- An announced edit behind the cached lines costs nothing. Any other one keeps as many
records as there are lines left of those that had one, and classifies its own lines and
those behind them that start in another state than before. -/
theorem report_announced {touches : Bool} (h : c.Coherent source)
    (ha : (c.announce source e).1 = .ok touches) (hi : inserted.length = e.inserted) :
    let after := e.splice source inserted
    let reported := (c.announce source e).2.report after e
    (c.lines.length ≤ e.start → reported = (.ok 0, { c with pending := none })) ∧
    (e.start < c.lines.length →
      reported.2.lines.length =
        e.start + e.inserted + (c.lines.length - (e.start + e.removed)) ∧
      reported.1 = .ok (e.inserted + (c.restarted after e).length)) := by
  intro after reported
  have he : e.Fits source inserted := ⟨(announce_of_ok ha).1, hi⟩
  have hidle : Coherent { c with pending := none } source := h.congr rfl rfl
  have hlen : after.length = e.newStop + (source.length - e.oldStop) := he.length_splice
  have hreported : reported = LineCache.apply { c with pending := none } after e :=
    report_announce_eq_apply ha hi
  rw [hreported]
  constructor
  · intro hc
    unfold apply
    rw [if_neg (by omega), if_pos hc]
  · intro hc
    constructor
    · have hl := h.2
      have ho := he.1
      rw [lines_apply hidle he hc, Language.length_records, List.length_take, hlen]
      simp only [LineEdit.newStop, LineEdit.oldStop] at ho ⊢
      omega
    · -- The lines of the edit are counted as such, and settling counts those behind them.
      rw [apply_splice hidle he hc]
      exact congrArg (fun n => Except.ok (e.inserted + n)) (settle_count_eq_length_restarted h he)

theorem report_announced_uncommented :
    let source : List Text := [['/', '*'], [';'], ['*', '/'], [';']]
    let c := (LineCache.spans { language := Zig.language } source 3).2
    let e : LineEdit := ⟨0, 1, 2⟩
    let after := e.splice source [[], [';']]
    let reported := (c.announce source e).2.report after e
    (∃ touches, (c.announce source e).1 = .ok touches) ∧ c.lines.length = 4 ∧
      c.restarted after e = [0, 1] ∧ reported.2.lines.length = 5 ∧ reported.1 = .ok 4 := by
  intro source c e after reported
  have hc : c.Coherent source := coherent_spans (coherent_of_lines_eq_nil rfl) 3
  obtain ⟨touches, ha⟩ : ∃ touches, (c.announce source e).1 = .ok touches := ⟨_, rfl⟩
  have hl : c.lines.length = 4 := rfl
  have hr : c.restarted after e = [0, 1] := by decide +kernel
  have hi : [[], [';']].length = e.inserted := rfl
  obtain ⟨hlength, hcount⟩ := (report_announced hc ha hi).2 (by rw [hl]; decide)
  refine ⟨⟨touches, ha⟩, hl, hr, ?_, ?_⟩
  · rw [hlength, hl]
    rfl
  · rw [hcount, hr]
    rfl

end LineCache

end Highlight
