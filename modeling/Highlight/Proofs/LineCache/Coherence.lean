import Highlight.LineCache
import Highlight.Zig
import Mathlib.Data.List.Basic

/-!
# Coherence of the line cache

A cache is coherent with a document if its records are the first ones that a
classification of the whole document gives. Reads extend such a prefix and rejections
shorten it. An edit is followed in three parts: the records before it stay, its own lines
are classified from the state reached there, and behind it the old records are shifted as
soon as a line starts in the state that it started in before (`settle_eq`).

A session is a document with its cache. Whatever calls are made on it in whatever order,
the cache stays coherent and every read answers as a fresh classification would, as long
as each change of the document is reported with its own range.
-/

namespace Highlight

namespace LineRecord

def carry : LineState → List LineRecord → LineState
  | s, [] => s
  | _, r :: rs => carry r.after rs

theorem carry_concat (s : LineState) (rs : List LineRecord) (r : LineRecord) :
    carry s (rs ++ [r]) = r.after := by
  induction rs generalizing s with
  | nil => rfl
  | cons q rs ih => exact ih q.after

theorem stateAfter_eq_carry (rs : List LineRecord) : stateAfter rs = carry .normal rs := by
  rcases List.eq_nil_or_concat rs with rfl | ⟨init, r, rfl⟩
  · rfl
  · rw [List.concat_eq_append, carry_concat, stateAfter, List.getLast?_concat]

end LineRecord

namespace Language

theorem recordsFrom_append (l : Language) (s : LineState) (ts us : List Text) :
    l.recordsFrom s (ts ++ us) =
      l.recordsFrom s ts ++ l.recordsFrom (LineRecord.carry s (l.recordsFrom s ts)) us := by
  induction ts generalizing s with
  | nil => rfl
  | cons t ts ih => simp only [List.cons_append, recordsFrom, LineRecord.carry, ih]

theorem take_recordsFrom (l : Language) (s : LineState) (ts : List Text) (n : Nat) :
    (l.recordsFrom s ts).take n = l.recordsFrom s (ts.take n) := by
  induction ts generalizing s n with
  | nil => simp [recordsFrom]
  | cons t ts ih =>
    cases n with
    | zero => rfl
    | succ n => simp only [recordsFrom, List.take_succ_cons, ih]

theorem records_append (l : Language) (ts us : List Text) :
    l.records (ts ++ us) =
      l.records ts ++ l.recordsFrom (LineRecord.stateAfter (l.records ts)) us := by
  rw [LineRecord.stateAfter_eq_carry]
  exact l.recordsFrom_append .normal ts us

theorem take_records (l : Language) (ts : List Text) (n : Nat) :
    (l.records ts).take n = l.records (ts.take n) :=
  l.take_recordsFrom .normal ts n

theorem drop_records (l : Language) (ts : List Text) (n : Nat) :
    (l.records ts).drop n =
      l.recordsFrom (LineRecord.stateAfter (l.records (ts.take n))) (ts.drop n) := by
  have h := l.records_append (ts.take n) (ts.drop n)
  rw [List.take_append_drop, ← l.take_records ts n] at h
  rw [← l.take_records ts n]
  exact List.append_cancel_left ((List.take_append_drop n (l.records ts)).trans h)

theorem length_records (l : Language) (ts : List Text) : (l.records ts).length = ts.length :=
  l.length_recordsFrom .normal ts

theorem settle_eq (l : Language) (s old : LineState) (ts : List Text) (n : Nat) :
    (l.settle s (l.recordsFrom old (ts.take n)) ts).1 = l.recordsFrom s (ts.take n) := by
  induction ts generalizing s old n with
  | nil => simp [recordsFrom, settle]
  | cons t ts ih =>
    cases n with
    | zero => rfl
    | succ n =>
      simp only [List.take_succ_cons, recordsFrom, settle, record_before]
      by_cases h : old = s
      · rw [if_pos h, h]
      · rw [if_neg h]
        -- The line is classified anew, and the old states are followed beside the new ones.
        exact congrArg (l.record s t :: ·) (ih (l.record s t).after (l.record old t).after n)

/-- What a fresh classification of the document answers to a read. -/
def answer (l : Language) (source : List Text) (line : Nat) : Except CacheError (List Span) :=
  match (l.records source)[line]? with
  | some r => .ok r.spans
  | none => .error (.lineOutOfRange line source.length)

end Language

namespace LineCache

/-- The cached records are the first ones of the document, and not more than it has lines. -/
def Coherent (c : LineCache) (source : List Text) : Prop :=
  c.lines = (c.language.records source).take c.lines.length ∧ c.lines.length ≤ source.length

variable {c : LineCache} {source source' : List Text}

theorem coherent_of_lines_eq {n : Nat} (h : c.lines = c.language.records (source.take n)) :
    c.Coherent source := by
  have hl : c.lines.length = min n source.length := by
    rw [h, Language.length_records, List.length_take]
  refine ⟨?_, by omega⟩
  rw [Language.take_records, hl, ← List.take_take, List.take_length]
  exact h

theorem Coherent.congr {d : LineCache} (h : c.Coherent source) (hl : d.lines = c.lines)
    (hg : d.language = c.language) : d.Coherent source := by
  rw [Coherent, hl, hg]
  exact h

theorem Coherent.lines_eq (h : c.Coherent source) :
    c.lines = c.language.records (source.take c.lines.length) := by
  rw [← Language.take_records]
  exact h.1

theorem coherent_of_lines_eq_nil (h : c.lines = []) : c.Coherent source := by
  refine coherent_of_lines_eq (n := 0) ?_
  rw [h, List.take_zero]
  rfl

theorem coherent_invalidateFrom_of_prefix {n : Nat} (h : c.Coherent source)
    (hs : source.take n <+: source') : (c.invalidateFrom n).Coherent source' := by
  have hkept : (source.take c.lines.length).take n <+: source' := by
    rw [List.take_take, Nat.min_comm, ← List.take_take]
    exact (List.take_prefix _ _).trans hs
  refine coherent_of_lines_eq (n := ((source.take c.lines.length).take n).length) ?_
  have hk : (c.invalidateFrom n).lines = (c.language.records (source.take c.lines.length)).take n := by
    rw [← h.lines_eq]
    rfl
  rw [hk, Language.take_records, ← List.prefix_iff_eq_take.1 hkept]
  rfl

theorem coherent_invalidateFrom {n : Nat} (h : c.Coherent source)
    (hs : source'.take n = source.take n) : (c.invalidateFrom n).Coherent source' :=
  coherent_invalidateFrom_of_prefix h (hs ▸ List.take_prefix n source')

/-- The cache takes the document for another one with as many lines. Only lines that have
records are mistaken. -/
structure Reflects (c : LineCache) (source seen : List Text) : Prop where
  length_eq : seen.length = source.length
  lines_eq : c.lines.take source.length = c.language.records (seen.take c.lines.length)
  drop_eq : seen.drop c.lines.length = source.drop c.lines.length

theorem Coherent.reflects (h : c.Coherent source) : c.Reflects source source := by
  refine ⟨rfl, ?_, rfl⟩
  rw [List.take_of_length_le h.2]
  exact h.lines_eq

variable {seen : List Text}

theorem Reflects.drop_take_eq (h : c.Reflects source seen) (n : Nat) :
    (source.take n).drop (min c.lines.length seen.length) = (seen.take n).drop c.lines.length := by
  have hlen := h.length_eq
  rcases Nat.le_total c.lines.length seen.length with hl | hl
  · rw [Nat.min_eq_left hl, List.drop_take, List.drop_take, h.drop_eq]
  · rw [Nat.min_eq_right hl, List.drop_eq_nil_of_le, List.drop_eq_nil_of_le]
    · rw [List.length_take]
      omega
    · rw [List.length_take]
      omega

theorem lines_extendTo (h : c.Reflects source seen) (n : Nat) :
    (c.extendTo source n).lines = c.language.records (seen.take (max c.lines.length n)) := by
  have hm : seen.take (max c.lines.length n) =
      seen.take c.lines.length ++ (seen.take n).drop c.lines.length := by
    rcases Nat.le_total c.lines.length n with hn | hn
    · have hsplit := List.take_append_drop c.lines.length (seen.take n)
      rw [List.take_take, Nat.min_eq_left hn] at hsplit
      rw [Nat.max_eq_right hn, hsplit]
    · rw [Nat.max_eq_left hn, List.drop_eq_nil_of_le, List.append_nil]
      rw [List.length_take]
      omega
  have hk : (c.language.records (seen.take c.lines.length)).length =
      min c.lines.length seen.length := by
    rw [Language.length_records, List.length_take]
  simp only [extendTo, h.lines_eq, hk, h.drop_take_eq, hm, Language.records_append]

theorem cachedSpans_extendTo (h : c.Reflects source seen) (line : Nat) :
    (c.extendTo source (line + 1)).cachedSpans line =
      (c.language.records seen)[line]?.map LineRecord.spans := by
  have hn : line < max c.lines.length (line + 1) := by omega
  rw [cachedSpans, lines_extendTo h, ← Language.take_records, List.getElem?_take, if_pos hn]

theorem Reflects.extendTo (h : c.Reflects source seen) (n : Nat) :
    (c.extendTo source n).Reflects source seen := by
  have hlines := lines_extendTo h n
  have hlen : (c.extendTo source n).lines.length = min (max c.lines.length n) seen.length := by
    rw [hlines, Language.length_records, List.length_take]
  have hsource := h.length_eq
  refine ⟨h.length_eq, ?_, ?_⟩
  · rw [List.take_of_length_le (by omega), hlen, ← List.take_take, List.take_length]
    exact hlines
  · have hdrop := h.drop_eq
    rw [hlen]
    rcases Nat.le_total (max c.lines.length n) seen.length with hl | hl
    · have hle : c.lines.length + (max c.lines.length n - c.lines.length) =
          max c.lines.length n := by omega
      rw [Nat.min_eq_left hl, ← hle, ← List.drop_drop, ← List.drop_drop, hdrop]
    · rw [Nat.min_eq_right hl, List.drop_length, hsource, List.drop_length]

theorem spans_of_le {line : Nat} (h : source.length ≤ line) :
    c.spans source line = (.error (.lineOutOfRange line source.length), c) := by
  rw [spans, if_pos h]

theorem spans_of_lt {line : Nat} (h : line < source.length) :
    c.spans source line =
      (.ok (((c.extendTo source (line + 1)).cachedSpans line).getD []),
        c.extendTo source (line + 1)) := by
  rw [spans, if_neg (Nat.not_le_of_lt h)]

theorem Reflects.spans (h : c.Reflects source seen) (line : Nat) :
    (c.spans source line).2.Reflects source seen := by
  unfold LineCache.spans
  split
  · exact h
  · exact h.extendTo (line + 1)

theorem coherent_spans (h : c.Coherent source) (line : Nat) :
    (c.spans source line).2.Coherent source := by
  unfold spans
  split
  · exact h
  · exact coherent_of_lines_eq (lines_extendTo h.reflects (line + 1))

theorem spans_eq_answer (h : c.Coherent source) (line : Nat) :
    (c.spans source line).1 = c.language.answer source line := by
  unfold spans Language.answer
  by_cases hl : source.length ≤ line
  · rw [if_pos hl, List.getElem?_eq_none (by rw [Language.length_records]; exact hl)]
  · have hr : line < (c.language.records source).length := by
      rw [Language.length_records]
      omega
    rw [if_neg hl]
    simp only [cachedSpans_extendTo h.reflects, List.getElem?_eq_getElem hr, Option.map_some,
      Option.getD_some]

theorem announce_cases (c : LineCache) (source : List Text) (e : LineEdit) :
    (source.length < e.oldStop ∧
      c.announce source e = (.error (.announcedOutOfRange e source.length), c)) ∨
    (e.oldStop ≤ source.length ∧ ∃ touches,
      c.announce source e = (.ok touches, { c with pending := some ⟨e, source.length, touches⟩ })) := by
  by_cases hlt : source.length < e.oldStop
  · exact .inl ⟨hlt, if_pos hlt⟩
  · exact .inr ⟨Nat.le_of_not_lt hlt, _, if_neg hlt⟩

theorem lines_announce (c : LineCache) (source : List Text) (e : LineEdit) :
    (c.announce source e).2.lines = c.lines := by
  unfold announce
  split <;> rfl

theorem apply_splice {e : LineEdit} {inserted : List Text} (h : c.Coherent source)
    (he : e.Fits source inserted) (hc : e.start < c.lines.length) :
    let changed := c.language.records ((e.splice source inserted).take e.newStop)
    let settled := c.language.settle (LineRecord.stateAfter changed) (c.lines.drop e.oldStop)
      (source.drop e.oldStop)
    c.apply (e.splice source inserted) e = (.ok (e.inserted + settled.2),
      { c with lines := (changed ++ settled.1).take (e.splice source inserted).length }) := by
  intro changed settled
  have ho := he.1
  have hlen := he.length_splice
  have hkept : c.lines.take e.start = c.language.records (source.take e.start) := by
    rw [h.lines_eq, Language.take_records, List.take_take, Nat.min_eq_left (Nat.le_of_lt hc)]
  have hchanged : c.language.records (source.take e.start) ++
      c.language.recordsFrom (LineRecord.stateAfter (c.language.records (source.take e.start)))
        inserted = changed := by
    rw [← Language.records_append, ← he.take_newStop_splice]
  unfold apply
  rw [if_neg (by omega), if_neg (by omega)]
  simp only [hkept, he.inserted_splice, hchanged, he.drop_newStop_splice]
  rfl

theorem Coherent.drop_lines (h : c.Coherent source) (n : Nat) :
    c.lines.drop n = c.language.recordsFrom
      (LineRecord.stateAfter (c.language.records ((source.take c.lines.length).take n)))
      ((source.drop n).take (c.lines.length - n)) := by
  have hdrop := c.language.drop_records (source.take c.lines.length) n
  rwa [← h.lines_eq, List.drop_take] at hdrop

theorem lines_apply {e : LineEdit} {inserted : List Text} (h : c.Coherent source)
    (he : e.Fits source inserted) (hc : e.start < c.lines.length) :
    (c.apply (e.splice source inserted) e).2.lines =
      c.language.records
        ((e.splice source inserted).take (e.newStop + (c.lines.length - e.oldStop))) := by
  have hl := h.2
  have ho := he.1
  have hlen := he.length_splice
  rw [apply_splice h he hc]
  dsimp only
  -- The old records behind the edit belong to lines that the new document has there too.
  rw [h.drop_lines, Language.settle_eq, ← he.drop_newStop_splice, ← Language.records_append,
    ← List.take_add, Language.take_records, List.take_take, Nat.min_eq_right (by omega)]

theorem language_apply (c : LineCache) (source : List Text) (e : LineEdit) :
    (c.apply source e).2.language = c.language := by
  unfold apply
  split
  · rfl
  · split <;> rfl

theorem coherent_apply {e : LineEdit} {inserted : List Text} (h : c.Coherent source)
    (he : e.Fits source inserted) :
    (c.apply (e.splice source inserted) e).2.Coherent (e.splice source inserted) := by
  have ho := he.1
  have hlen := he.length_splice
  by_cases hc : e.start < c.lines.length
  · refine coherent_of_lines_eq (n := e.newStop + (c.lines.length - e.oldStop)) ?_
    rw [language_apply]
    exact lines_apply h he hc
  · have hcut : c.lines = (c.invalidateFrom e.start).lines :=
      (List.take_of_length_le (Nat.le_of_not_lt hc)).symm
    have hcoh := (coherent_invalidateFrom h he.take_start_splice).congr hcut rfl
    unfold apply
    rwa [if_neg (by omega), if_pos (Nat.le_of_not_lt hc)]

/-- The first line that an edit touches, or the one that stands announced. -/
def firstTouched (c : LineCache) (e : LineEdit) : Nat :=
  match c.pending with
  | some p => min p.edit.start e.start
  | none => e.start

theorem firstTouched_le (c : LineCache) (e : LineEdit) : c.firstTouched e ≤ e.start := by
  unfold firstTouched
  split
  · exact Nat.min_le_right _ _
  · exact Nat.le_refl _

theorem report_cases (c : LineCache) (source : List Text) (e : LineEdit) :
    (c.report source e = LineCache.apply { c with pending := none } source e ∧
      c.firstTouched e = e.start) ∨
    (c.report source e).2 =
      LineCache.invalidateFrom { c with pending := none } (c.firstTouched e) := by
  unfold report firstTouched
  cases c.pending with
  | none =>
    by_cases hkind : e.kind = .change
    · exact .inl ⟨if_pos hkind, rfl⟩
    · right
      simp only [if_neg hkind]
  | some p =>
    by_cases he : p.edit = e
    · have hmin : min p.edit.start e.start = e.start := by rw [he, Nat.min_self]
      simp only [if_pos he, hmin]
      by_cases hcount : p.lineCount - e.removed + e.inserted = source.length
      · exact .inl ⟨if_pos hcount, trivial⟩
      · right
        rw [if_neg hcount]
    · right
      simp only [if_neg he]

theorem language_report (c : LineCache) (source : List Text) (e : LineEdit) :
    (c.report source e).2.language = c.language := by
  rcases c.report_cases source e with ⟨hr, -⟩ | hr
  · rw [hr, language_apply]
  · rw [hr]
    rfl

theorem coherent_report {e : LineEdit} {inserted : List Text} (h : c.Coherent source)
    (he : e.Fits source inserted) :
    (c.report (e.splice source inserted) e).2.Coherent (e.splice source inserted) := by
  have hidle : Coherent { c with pending := none } source := h.congr rfl rfl
  rcases c.report_cases (e.splice source inserted) e with ⟨hr, -⟩ | hr
  · rw [hr]
    exact coherent_apply hidle he
  · have hfirst : (e.splice source inserted).take (c.firstTouched e) =
        source.take (c.firstTouched e) := by
      rw [← Nat.min_eq_left (c.firstTouched_le e), ← List.take_take, he.take_start_splice,
        List.take_take]
    rw [hr]
    exact coherent_invalidateFrom hidle hfirst

theorem language_spans (c : LineCache) (source : List Text) (line : Nat) :
    (c.spans source line).2.language = c.language := by
  unfold spans
  split <;> rfl

theorem language_announce (c : LineCache) (source : List Text) (e : LineEdit) :
    (c.announce source e).2.language = c.language := by
  unfold announce
  split <;> rfl

end LineCache

structure CacheSession where
  source : List Text
  cache : LineCache

inductive CacheCall
  | read (line : Nat)
  | invalidateFrom (line : Nat)
  | invalidateAll
  | announce (e : LineEdit)
  | change (e : LineEdit) (inserted : List Text)

/-- A change must describe itself truthfully; nothing is asked of the other calls. -/
def CacheCall.Fits (source : List Text) : CacheCall → Prop
  | .change e inserted => e.Fits source inserted
  | _ => True

namespace CacheSession

def start (l : Language) (source : List Text) : CacheSession := ⟨source, { language := l }⟩

def perform (s : CacheSession) : CacheCall → CacheSession
  | .read line => { s with cache := (s.cache.spans s.source line).2 }
  | .invalidateFrom line => { s with cache := s.cache.invalidateFrom line }
  | .invalidateAll => { s with cache := s.cache.invalidateAll }
  | .announce e => { s with cache := (s.cache.announce s.source e).2 }
  | .change e inserted =>
    let source := e.splice s.source inserted
    ⟨source, (s.cache.report source e).2⟩

inductive Runs : CacheSession → List CacheCall → CacheSession → Prop
  | nil (s : CacheSession) : Runs s [] s
  | cons {s s' : CacheSession} {call : CacheCall} {calls : List CacheCall} :
      call.Fits s.source → Runs (s.perform call) calls s' → Runs s (call :: calls) s'

theorem language_perform (s : CacheSession) (call : CacheCall) :
    (s.perform call).cache.language = s.cache.language := by
  cases call with
  | read line => exact LineCache.language_spans _ _ _
  | invalidateFrom line => rfl
  | invalidateAll => rfl
  | announce e => exact LineCache.language_announce _ _ _
  | change e inserted => exact LineCache.language_report _ _ _

theorem coherent_perform {s : CacheSession} {call : CacheCall}
    (h : s.cache.Coherent s.source) (hf : call.Fits s.source) :
    (s.perform call).cache.Coherent (s.perform call).source := by
  cases call with
  | read line => exact LineCache.coherent_spans h line
  | invalidateFrom line => exact LineCache.coherent_invalidateFrom h rfl
  | invalidateAll => exact LineCache.coherent_of_lines_eq_nil rfl
  | announce e =>
    exact h.congr (LineCache.lines_announce _ _ _) (LineCache.language_announce _ _ _)
  | change e inserted => exact LineCache.coherent_report h hf

theorem Runs.language_eq {s s' : CacheSession} {calls : List CacheCall} (h : Runs s calls s') :
    s'.cache.language = s.cache.language := by
  induction h with
  | nil s => rfl
  | cons _ _ ih => exact ih.trans (language_perform _ _)

theorem Runs.coherent {s s' : CacheSession} {calls : List CacheCall} (h : Runs s calls s')
    (hs : s.cache.Coherent s.source) : s'.cache.Coherent s'.source := by
  induction h with
  | nil s => exact hs
  | cons hf _ ih => exact ih (coherent_perform hs hf)

/-- Calls in any order keep the cache of a document a beginning of its classification, and
every read answers from it what a fresh classification would. -/
theorem coherent_of_runs {l : Language} {source : List Text} {calls : List CacheCall}
    {s : CacheSession} (h : Runs (start l source) calls s) :
    s.cache.language = l ∧ s.cache.Coherent s.source ∧
      ∀ line, (s.cache.spans s.source line).1 = l.answer s.source line := by
  have hl : s.cache.language = l := h.language_eq
  have hc : s.cache.Coherent s.source := h.coherent (LineCache.coherent_of_lines_eq_nil rfl)
  refine ⟨hl, hc, ?_⟩
  intro line
  rw [LineCache.spans_eq_answer hc, hl]

theorem coherent_of_runs_unannounced :
    ∃ s, Runs (start Zig.language [['a'], ['b'], ['c']])
        [.read 2, .change ⟨0, 1, 1⟩ [['/', '*']], .announce ⟨0, 1, 2⟩, .change ⟨1, 1, 0⟩ []] s ∧
      s.source = [['/', '*'], ['c']] ∧ s.cache.language = Zig.language ∧
      s.cache.Coherent s.source ∧
      (∀ line, (s.cache.spans s.source line).1 = Zig.language.answer s.source line) ∧
      (s.cache.spans s.source 0).1 = .ok [⟨0, 2, .comment⟩] ∧
      (s.cache.spans s.source 1).1 = .ok [⟨0, 1, .comment⟩] ∧
      (s.cache.spans s.source 2).1 = .error (.lineOutOfRange 2 2) := by
  have hfirst : CacheCall.Fits [['a'], ['b'], ['c']] (.change ⟨0, 1, 1⟩ [['/', '*']]) :=
    ⟨by decide, rfl⟩
  have hsecond : CacheCall.Fits [['/', '*'], ['b'], ['c']] (.change ⟨1, 1, 0⟩ []) :=
    ⟨by decide, rfl⟩
  obtain ⟨s, hs, hsource⟩ : ∃ s, Runs (start Zig.language [['a'], ['b'], ['c']])
      [.read 2, .change ⟨0, 1, 1⟩ [['/', '*']], .announce ⟨0, 1, 2⟩, .change ⟨1, 1, 0⟩ []] s ∧
      s.source = [['/', '*'], ['c']] :=
    ⟨_, .cons trivial (.cons hfirst (.cons trivial (.cons hsecond (.nil _)))), rfl⟩
  obtain ⟨hlanguage, hcoherent, hanswer⟩ := coherent_of_runs hs
  have hfresh (line : Nat) : (s.cache.spans s.source line).1 =
      Zig.language.answer [['/', '*'], ['c']] line := by rw [hanswer, hsource]
  exact ⟨s, hs, hsource, hlanguage, hcoherent, hanswer, (hfresh 0).trans (by decide +kernel),
    (hfresh 1).trans (by decide +kernel), (hfresh 2).trans rfl⟩

end CacheSession

end Highlight
