import Highlight.Proofs.LineCache.Coherence

/-!
# The cache under any host

A host may hand over another document with every call, report edits that it never made and
ask for lines that do not exist. The cache then answers something that is true of no
document, but it does not break: the loops of its calls are run here record by record, with
every index, cut and subtraction checked, and a step that fails its check, or asks for a
line that is not there, has no result. From any reachable cache every call has a result, which
is the one of the call as a whole (`performAt?_eq`), and its records stay linked, each one
starting in the state that the one before it leaves (`Intact.perform`).
-/

namespace Highlight

namespace LineRecord

theorem stateAfter_concat (rs : List LineRecord) (r : LineRecord) :
    stateAfter (rs ++ [r]) = r.after := by
  rw [stateAfter_eq_carry, carry_concat]

/-- The first record starts in a given state, and each other one where the last one ended. -/
def LinkedFrom : LineState → List LineRecord → Prop
  | _, [] => True
  | s, r :: rs => r.before = s ∧ LinkedFrom r.after rs

variable {s : LineState} {rs qs : List LineRecord} {r next : LineRecord} {n : Nat}

theorem linkedFrom_append :
    LinkedFrom s (rs ++ qs) ↔ LinkedFrom s rs ∧ LinkedFrom (carry s rs) qs := by
  induction rs generalizing s with
  | nil => simp [LinkedFrom, carry]
  | cons r rs ih => simp only [List.cons_append, LinkedFrom, carry, ih, and_assoc]

theorem LinkedFrom.take (h : LinkedFrom s rs) (n : Nat) : LinkedFrom s (rs.take n) := by
  rw [← List.take_append_drop n rs] at h
  exact (linkedFrom_append.1 h).1

theorem LinkedFrom.drop (h : LinkedFrom s rs) (n : Nat) :
    LinkedFrom (carry s (rs.take n)) (rs.drop n) := by
  rw [← List.take_append_drop n rs] at h
  exact (linkedFrom_append.1 h).2

theorem linkedFrom_recordsFrom (l : Language) (s : LineState) (ts : List Text) :
    LinkedFrom s (l.recordsFrom s ts) := by
  induction ts generalizing s with
  | nil => trivial
  | cons t ts ih => exact ⟨l.record_before s t, ih _⟩

theorem LinkedFrom.settle {old : LineState} (h : LinkedFrom old rs) (l : Language)
    (s : LineState) (ts : List Text) : LinkedFrom s (l.settle s rs ts).1 := by
  induction rs generalizing s old ts with
  | nil => trivial
  | cons r rs ih =>
    by_cases hs : r.before = s
    · -- The old records are linked among themselves, so only the first one kept matters.
      rw [l.settle_of_eq hs]
      exact ⟨hs, h.2⟩
    · cases ts with
      | nil =>
        rw [l.settle_nil_of_ne hs]
        trivial
      | cons t ts =>
        rw [l.settle_cons_of_ne hs]
        exact ⟨l.record_before s t, ih h.2 _ ts⟩

theorem LinkedFrom.before_eq (h : LinkedFrom s rs) (hr : rs[0]? = some r) : r.before = s := by
  cases rs with
  | nil => simp at hr
  | cons q rs =>
    cases hr
    exact h.1

theorem LinkedFrom.before_eq_after (h : LinkedFrom s rs) (hr : rs[n]? = some r)
    (hnext : rs[n + 1]? = some next) : next.before = r.after := by
  induction n generalizing s rs with
  | zero =>
    cases rs with
    | nil => simp at hr
    | cons q rs =>
      cases hr
      exact h.2.before_eq hnext
  | succ n ih =>
    cases rs with
    | nil => simp at hr
    | cons q rs => exact ih h.2 hr hnext

end LineRecord

namespace LineCache

open LineRecord (stateAfter LinkedFrom)

section Steps

variable (l : Language) (source : List Text)

def carryInto? (lines : List LineRecord) : Nat → Option LineState
  | 0 => some .normal
  | line + 1 => do return (← lines[line]?).after

def compute? (line : Nat) (s : LineState) : Option LineRecord := do
  return l.record s (← source[line]?)

def fill? (line : Nat) (lines : List LineRecord) : Option (List LineRecord) :=
  if lines.length ≤ line then do
    let s ← carryInto? lines lines.length
    let r ← compute? l source lines.length s
    fill? line (lines ++ [r])
  else some lines
termination_by line + 1 - lines.length
decreasing_by
  simp only [List.length_append, List.length_singleton]
  omega

def reclassify? : List Nat → List LineRecord → Nat → Option (List LineRecord × Nat)
  | [], lines, count => some (lines, count)
  | line :: rest, lines, count => do
    let s ← carryInto? lines line
    let r ← compute? l source line s
    reclassify? rest (lines ++ [r]) (count + 1)

def propagate? : List LineRecord → List LineRecord → Nat → Option (List LineRecord × Nat)
  | [], lines, count => some (lines, count)
  | old :: olds, lines, count => do
    let s ← carryInto? lines lines.length
    if old.before = s then return (lines ++ old :: olds, count)
    else if source.length ≤ lines.length then return (lines, count)
    else
      let r ← compute? l source lines.length s
      propagate? olds (lines ++ [r]) (count + 1)

end Steps

def cutAt? {α : Type} (xs : List α) (n : Nat) : Option (List α × List α) :=
  if n ≤ xs.length then some (xs.take n, xs.drop n) else none

def minus? (m n : Nat) : Option Nat := if n ≤ m then some (m - n) else none

def spansAt? (c : LineCache) (source : List Text) (line : Nat) :
    Option (Except CacheError (List Span) × LineCache) :=
  if source.length ≤ line then some (.error (.lineOutOfRange line source.length), c)
  else do
    let lines ← fill? c.language source line (c.lines.take source.length)
    return (.ok (← lines[line]?).spans, { c with lines := lines })

def applyAt? (c : LineCache) (source : List Text) (e : LineEdit) :
    Option (Except CacheError Nat × LineCache) :=
  if source.length < e.newStop then
    some (.error (.reportedOutOfRange e source.length), c.invalidateFrom e.start)
  else if c.lines.length ≤ e.start then some (.ok 0, c)
  else do
    let (kept, rest) ← cutAt? c.lines e.start
    let (_, olds) ← cutAt? rest (min e.removed rest.length)
    let (changed, n) ←
      reclassify? c.language source (List.range' e.start e.inserted) kept 0
    let (lines, n) ← propagate? c.language source olds changed n
    return (.ok n, { c with lines := lines.take source.length })

def reportAt? (c : LineCache) (source : List Text) (e : LineEdit) :
    Option (Except CacheError Nat × LineCache) :=
  let idle := { c with pending := none }
  match c.pending with
  | some p =>
    if p.edit = e then do
      let expected := (← minus? p.lineCount e.removed) + e.inserted
      if expected = source.length then idle.applyAt? source e
      else return (.error (.lineCountMismatch expected source.length), idle.invalidateFrom e.start)
    else some (.error (.unannounced e p.edit), idle.invalidateFrom (min p.edit.start e.start))
  | none =>
    if e.kind = .change then idle.applyAt? source e
    else some (.ok 0, idle.invalidateFrom e.start)

variable {c : LineCache} {l : Language} {source : List Text} {lines : List LineRecord}

theorem carryInto?_length (lines : List LineRecord) :
    carryInto? lines lines.length = some (stateAfter lines) := by
  rcases List.eq_nil_or_concat lines with rfl | ⟨init, r, rfl⟩
  · rfl
  · rw [List.concat_eq_append, LineRecord.stateAfter_concat, List.length_append,
      List.length_singleton, carryInto?, List.getElem?_concat_length]
    rfl

theorem compute?_of_lt {line : Nat} (h : line < source.length) (s : LineState) :
    compute? l source line s = some (l.record s source[line]) := by
  rw [compute?, List.getElem?_eq_getElem h]
  rfl

theorem extend_concat {n : Nat} (hn : lines.length < n) (hs : lines.length < source.length) :
    let r := l.record (stateAfter lines) source[lines.length]
    lines ++ [r] ++ l.recordsFrom (stateAfter (lines ++ [r]))
        ((source.take n).drop (lines ++ [r]).length) =
      lines ++ l.recordsFrom (stateAfter lines) ((source.take n).drop lines.length) := by
  intro r
  have hlt : lines.length < (source.take n).length := by
    rw [List.length_take]
    omega
  rw [List.drop_eq_getElem_cons hlt, List.getElem_take, Language.recordsFrom,
    LineRecord.stateAfter_concat, List.append_assoc, List.length_append]
  rfl

theorem fill?_eq {line : Nat} (hline : line < source.length) (h : lines.length ≤ source.length) :
    fill? l source line lines =
      some (lines ++ l.recordsFrom (stateAfter lines) ((source.take (line + 1)).drop lines.length)) := by
  fun_induction fill? l source line lines with
  | case1 lines hle ih =>
    have hlt : lines.length < source.length := by omega
    have hnext : (lines ++ [l.record (stateAfter lines) source[lines.length]]).length ≤
        source.length := by
      rw [List.length_append]
      exact hlt
    rw [carryInto?_length]
    simp only [Option.bind_eq_bind, Option.bind_some, compute?_of_lt hlt]
    rw [ih _ hnext, extend_concat (Nat.lt_succ_of_le hle) hlt]
  | case2 lines hgt =>
    rw [List.drop_eq_nil_of_le, Language.recordsFrom, List.append_nil]
    rw [List.length_take]
    omega

theorem reclassify?_eq (lines : List LineRecord) {n stop : Nat} (count : Nat)
    (hn : lines.length + n = stop) (hstop : stop ≤ source.length) :
    reclassify? l source (List.range' lines.length n) lines count =
      some (lines ++ l.recordsFrom (stateAfter lines) ((source.take stop).drop lines.length),
        count + n) := by
  induction n generalizing lines count with
  | zero =>
    rw [List.drop_eq_nil_of_le (by rw [List.length_take]; omega), Language.recordsFrom,
      List.append_nil]
    rfl
  | succ n ih =>
    have hlt : lines.length < source.length := by omega
    have hrest := ih (lines ++ [l.record (stateAfter lines) source[lines.length]]) (count + 1)
      (by rw [List.length_append, List.length_singleton]; omega)
    rw [extend_concat (by omega) hlt, List.length_append, Nat.add_right_comm count] at hrest
    rw [List.range'_succ, reclassify?, carryInto?_length]
    simp only [Option.bind_eq_bind, Option.bind_some, compute?_of_lt hlt]
    exact hrest

theorem propagate?_eq (lines olds : List LineRecord) (count : Nat) :
    propagate? l source olds lines count =
      some (lines ++ (l.settle (stateAfter lines) olds (source.drop lines.length)).1,
        count + (l.settle (stateAfter lines) olds (source.drop lines.length)).2) := by
  induction olds generalizing lines count with
  | nil => simp [propagate?, Language.settle]
  | cons old olds ih =>
    rw [propagate?, carryInto?_length]
    simp only [Option.bind_eq_bind, Option.bind_some]
    by_cases hs : old.before = stateAfter lines
    · rw [if_pos hs, l.settle_of_eq hs]
      rfl
    · rw [if_neg hs]
      by_cases hlt : lines.length < source.length
      · rw [if_neg (Nat.not_le_of_lt hlt), compute?_of_lt hlt, Option.bind_some, ih,
          LineRecord.stateAfter_concat, List.drop_eq_getElem_cons hlt, l.settle_cons_of_ne hs,
          List.length_append, List.append_assoc, Nat.add_right_comm count]
        rfl
      · rw [if_pos (Nat.le_of_not_lt hlt), List.drop_eq_nil_of_le (Nat.le_of_not_lt hlt),
          l.settle_nil_of_ne hs, List.append_nil]
        rfl

theorem cutAt?_of_le {α : Type} {xs : List α} {n : Nat} (h : n ≤ xs.length) :
    cutAt? xs n = some (xs.take n, xs.drop n) :=
  if_pos h

theorem lt_length_extendTo {line : Nat} (c : LineCache) (h : line < source.length) :
    line < (c.extendTo source (line + 1)).lines.length := by
  simp only [extendTo, List.length_append, Language.length_recordsFrom, List.length_drop,
    List.length_take]
  omega

theorem spansAt?_eq (c : LineCache) (source : List Text) (line : Nat) :
    c.spansAt? source line = some (c.spans source line) := by
  by_cases hline : source.length ≤ line
  · rw [spansAt?, if_pos hline, spans_of_le hline]
  · have hlt : line < source.length := Nat.lt_of_not_le hline
    have hfill : fill? c.language source line (c.lines.take source.length) =
        some (c.extendTo source (line + 1)).lines :=
      fill?_eq hlt (List.length_take_le _ _)
    have hrecord := List.getElem?_eq_getElem (c.lt_length_extendTo hlt)
    rw [spansAt?, if_neg hline, hfill, spans_of_lt hlt]
    simp only [Option.bind_eq_bind, Option.bind_some, cachedSpans, hrecord]
    rfl

theorem drop_drop_min {α : Type} (xs : List α) (m n : Nat) :
    (xs.drop m).drop (min n (xs.drop m).length) = xs.drop (m + n) := by
  rcases Nat.le_total n (xs.drop m).length with hn | hn
  · rw [Nat.min_eq_left hn, List.drop_drop]
  · rw [Nat.min_eq_right hn, List.drop_length, ← List.drop_drop, List.drop_eq_nil_of_le hn]

theorem length_changed {e : LineEdit} (hkept : lines.length = e.start)
    (hstop : e.newStop ≤ source.length) (s : LineState) :
    (lines ++ l.recordsFrom s ((source.drop e.start).take e.inserted)).length = e.newStop := by
  rw [List.length_append, hkept, Language.length_recordsFrom, List.length_take, List.length_drop,
    LineEdit.newStop]
  rw [LineEdit.newStop] at hstop
  omega

theorem applyAt?_eq (c : LineCache) (source : List Text) (e : LineEdit) :
    c.applyAt? source e = some (c.apply source e) := by
  rw [applyAt?, apply]
  by_cases hstop : source.length < e.newStop
  · rw [if_pos hstop, if_pos hstop]
  · rw [if_neg hstop, if_neg hstop]
    by_cases hstart : c.lines.length ≤ e.start
    · rw [if_pos hstart, if_pos hstart]
    · rw [if_neg hstart, if_neg hstart]
      have hle : e.start ≤ c.lines.length := Nat.le_of_not_le hstart
      have hfits : e.newStop ≤ source.length := Nat.le_of_not_lt hstop
      have hkept : (c.lines.take e.start).length = e.start := List.length_take_of_le hle
      have hnew := reclassify?_eq (l := c.language) (c.lines.take e.start) 0
        (congrArg (· + e.inserted) hkept) hfits
      rw [hkept, List.drop_take, Nat.add_sub_cancel_left] at hnew
      rw [cutAt?_of_le hle]
      simp only [Option.bind_eq_bind, Option.bind_some, cutAt?_of_le (Nat.min_le_right _ _),
        drop_drop_min, hnew, propagate?_eq, length_changed hkept hfits, Nat.zero_add]
      rfl

theorem reportAt?_eq (hp : ∀ p, c.pending = some p → p.edit.oldStop ≤ p.lineCount)
    (source : List Text) (e : LineEdit) : c.reportAt? source e = some (c.report source e) := by
  unfold reportAt? report
  cases hpending : c.pending with
  | none =>
    dsimp only
    by_cases hkind : e.kind = .change
    · rw [if_pos hkind, if_pos hkind, applyAt?_eq]
    · rw [if_neg hkind, if_neg hkind]
  | some p =>
    dsimp only
    by_cases he : p.edit = e
    · have hremoved : e.removed ≤ p.lineCount := by
        have hstop := hp p hpending
        rw [he, LineEdit.oldStop] at hstop
        omega
      rw [if_pos he, if_pos he, minus?, if_pos hremoved]
      simp only [Option.bind_eq_bind, Option.bind_some, applyAt?_eq]
      split <;> rfl
    · rw [if_neg he, if_neg he]

/-- What every call keeps, whatever document is handed over with it. -/
structure Intact (c : LineCache) : Prop where
  linked : LinkedFrom .normal c.lines
  pending_fits : ∀ p, c.pending = some p → p.edit.oldStop ≤ p.lineCount

theorem intact_of_pending_eq_none (hl : LinkedFrom .normal c.lines) (hp : c.pending = none) :
    c.Intact := by
  refine ⟨hl, ?_⟩
  intro p hsome
  rw [hp] at hsome
  cases hsome

theorem Intact.invalidateFrom (h : c.Intact) (line : Nat) : (c.invalidateFrom line).Intact :=
  ⟨h.linked.take line, h.pending_fits⟩

theorem Intact.spans (h : c.Intact) (source : List Text) (line : Nat) :
    (c.spans source line).2.Intact := by
  rcases Nat.lt_or_ge line source.length with hline | hline
  · rw [spans_of_lt hline]
    refine ⟨?_, h.pending_fits⟩
    rw [extendTo, LineRecord.linkedFrom_append, ← LineRecord.stateAfter_eq_carry]
    exact ⟨h.linked.take _, LineRecord.linkedFrom_recordsFrom _ _ _⟩
  · rw [spans_of_le hline]
    exact h

theorem Intact.announce (h : c.Intact) (source : List Text) (e : LineEdit) :
    (c.announce source e).2.Intact := by
  rcases c.announce_cases source e with ⟨-, ha⟩ | ⟨hstop, touches, ha⟩
  · rw [ha]
    exact h
  · rw [ha]
    refine ⟨h.linked, ?_⟩
    intro p hp
    cases hp
    exact hstop

theorem Intact.apply (h : c.Intact) (source : List Text) (e : LineEdit) :
    (c.apply source e).2.Intact := by
  unfold LineCache.apply
  split
  · exact h.invalidateFrom e.start
  · split
    · exact h
    · -- The records kept, the new ones and the old ones behind them are linked one to the next.
      refine ⟨LinkedFrom.take ?_ _, h.pending_fits⟩
      rw [LineRecord.linkedFrom_append, LineRecord.linkedFrom_append,
        ← LineRecord.stateAfter_eq_carry, ← LineRecord.stateAfter_eq_carry]
      exact ⟨⟨h.linked.take _, LineRecord.linkedFrom_recordsFrom _ _ _⟩,
        (h.linked.drop _).settle _ _ _⟩

theorem Intact.report (h : c.Intact) (source : List Text) (e : LineEdit) :
    (c.report source e).2.Intact := by
  have hidle : Intact { c with pending := none } := intact_of_pending_eq_none h.linked rfl
  rcases c.report_cases source e with ⟨hr, -⟩ | hr
  · rw [hr]
    exact hidle.apply source e
  · rw [hr]
    exact hidle.invalidateFrom _

end LineCache

inductive HostCall
  | read (source : List Text) (line : Nat)
  | announce (source : List Text) (e : LineEdit)
  | report (source : List Text) (e : LineEdit)
  | invalidateFrom (line : Nat)
  | invalidateAll

inductive HostAnswer
  | spans (answer : Except CacheError (List Span))
  | touches (answer : Except CacheError Bool)
  | classified (answer : Except CacheError Nat)
  | done

namespace LineCache

def perform (c : LineCache) : HostCall → HostAnswer × LineCache
  | .read source line => (c.spans source line).map .spans id
  | .announce source e => (c.announce source e).map .touches id
  | .report source e => (c.report source e).map .classified id
  | .invalidateFrom line => (.done, c.invalidateFrom line)
  | .invalidateAll => (.done, c.invalidateAll)

/-- A call with its loops run step by step. The other calls have no step that could fail. -/
def performAt? (c : LineCache) : HostCall → Option (HostAnswer × LineCache)
  | .read source line => (c.spansAt? source line).map (Prod.map .spans id)
  | .report source e => (c.reportAt? source e).map (Prod.map .classified id)
  | call => some (c.perform call)

def run (c : LineCache) : List HostCall → List HostAnswer × LineCache
  | [] => ([], c)
  | call :: calls =>
    let (answer, c) := c.perform call
    let (answers, c) := run c calls
    (answer :: answers, c)

def runAt? (c : LineCache) : List HostCall → Option (List HostAnswer × LineCache)
  | [] => some ([], c)
  | call :: calls => do
    let (answer, c) ← c.performAt? call
    let (answers, c) ← runAt? c calls
    return (answer :: answers, c)

variable {c : LineCache}

theorem performAt?_eq (h : c.Intact) (call : HostCall) :
    c.performAt? call = some (c.perform call) := by
  cases call with
  | read source line => rw [performAt?, spansAt?_eq, perform, Option.map_some]
  | report source e => rw [performAt?, reportAt?_eq h.pending_fits, perform, Option.map_some]
  | announce source e => rfl
  | invalidateFrom line => rfl
  | invalidateAll => rfl

theorem Intact.perform (h : c.Intact) (call : HostCall) : (c.perform call).2.Intact := by
  cases call with
  | read source line => exact h.spans source line
  | announce source e => exact h.announce source e
  | report source e => exact h.report source e
  | invalidateFrom line => exact h.invalidateFrom line
  | invalidateAll => exact intact_of_pending_eq_none trivial rfl

theorem Intact.run (h : c.Intact) (calls : List HostCall) : (c.run calls).2.Intact := by
  induction calls generalizing c with
  | nil => exact h
  | cons call calls ih => exact ih (h.perform call)

theorem runAt?_eq (h : c.Intact) (calls : List HostCall) :
    c.runAt? calls = some (c.run calls) := by
  induction calls generalizing c with
  | nil => rfl
  | cons call calls ih =>
    rw [runAt?, performAt?_eq h]
    simp only [Option.bind_eq_bind, Option.bind_some, ih (h.perform call)]
    rfl

/-- However a host calls a cache, no step of a call fails. A read is refused only behind the
end of the document, a refused read or announcement changes nothing, and the records are
linked from the normal state on. -/
theorem runAt?_total (l : Language) (calls : List HostCall) :
    let c := (run { language := l } calls).2
    runAt? { language := l } calls = some (run { language := l } calls) ∧
    (∀ source line,
      ((∃ err, (c.spans source line).1 = .error err) ↔ source.length ≤ line) ∧
      (source.length ≤ line →
        c.spans source line = (.error (.lineOutOfRange line source.length), c))) ∧
    (∀ source e err, (c.announce source e).1 = .error err → (c.announce source e).2 = c) ∧
    (∀ first, c.lines[0]? = some first → first.before = .normal) ∧
    ∀ n r next, c.lines[n]? = some r → c.lines[n + 1]? = some next → next.before = r.after := by
  intro c
  have hstart : Intact { language := l } := intact_of_pending_eq_none trivial rfl
  have hc : c.Intact := hstart.run calls
  refine ⟨runAt?_eq hstart calls, ?_, ?_, ?_, ?_⟩
  · intro source line
    refine ⟨⟨?_, fun hline => ⟨_, congrArg Prod.fst (spans_of_le hline)⟩⟩, spans_of_le⟩
    rintro ⟨err, herr⟩
    by_cases hlt : line < source.length
    · rw [spans_of_lt hlt] at herr
      cases herr
    · exact Nat.le_of_not_lt hlt
  · intro source e err herr
    rcases c.announce_cases source e with ⟨-, ha⟩ | ⟨-, touches, ha⟩
    · rw [ha]
    · rw [ha] at herr
      cases herr
  · intro first hfirst
    exact hc.linked.before_eq hfirst
  · intro n r next hr hnext
    exact hc.linked.before_eq_after hr hnext

end LineCache

end Highlight
