import Highlight.Proofs.Buffer.Splice

/-!
# Edits are made whole or not at all

Before an edit is made its lines are checked and the first hook is told, and after it the
second one. What is checked is all that can go wrong: `Edit.steps?` makes an edit as a
series of smaller steps on the lines, each of which has no result where a line is missing, a
cut falls into a character or a place lies outside the list, and for an edit that passed the
check every step has a result (`steps?_eq`). So an edit between its two hooks is never left
half made, and an edit that is refused is seen by nobody.
-/

namespace Highlight

namespace Edit

def offsets : Edit → List Nat
  | insert _ offset _ | newline _ offset => [offset]
  | delete _ start stop => [start, stop]
  | join _ | deleteLine _ => []

/-- What stands in the way of an edit, and the error that tells of it. -/
inductive Obstacle (lines : List Text) : Edit → EditError → Prop
  | line {e : Edit} : lines.length ≤ e.line →
      Obstacle lines e (.lineOutOfRange e.line lines.length)
  | offset {e : Edit} {text : Text} {n : Nat} : lines[e.line]? = some text → n ∈ e.offsets →
      text.byteSize < n ∨ ¬ text.IsBoundary n → Obstacle lines e (.notBoundary n e.line)
  | reversed {l start stop : Nat} : stop < start → Obstacle lines (.delete l start stop) .reversed
  | lastLine {l : Nat} : lines.length ≤ l + 1 → Obstacle lines (.join l) .noNextLine

section Checks

variable {e : Edit} {lines : List Text} {err : EditError}

theorem checkBoundary_bind_eq_error_iff {text : Text} {line offset : Nat}
    {next : Unit → Except EditError LineEdit} :
    checkBoundary text line offset >>= next = .error err ↔
      (¬ text.IsBoundary offset ∧ err = .notBoundary offset line) ∨
        (text.IsBoundary offset ∧ next () = .error err) := by
  rw [checkBoundary]
  split
  · next hb => simp [hb, bind, Except.bind]
  · next hb => simp [hb, bind, Except.bind, eq_comm]

theorem obstacle_of_range_eq_error (h : e.range lines = .error err) : e.Obstacle lines err := by
  rw [range] at h
  cases htext : lines[e.line]? with
  | none =>
    simp only [htext, Except.error.injEq] at h
    rw [← h]
    exact .line (List.getElem?_eq_none_iff.1 htext)
  | some text =>
    simp only [htext] at h
    cases e with
    | insert l offset inserted =>
      obtain ⟨hb, rfl⟩ | ⟨-, hok⟩ := checkBoundary_bind_eq_error_iff.1 h
      · exact .offset htext (List.mem_singleton_self offset) (.inr hb)
      · cases hok
    | newline l offset =>
      obtain ⟨hb, rfl⟩ | ⟨-, hok⟩ := checkBoundary_bind_eq_error_iff.1 h
      · exact .offset htext (List.mem_singleton_self offset) (.inr hb)
      · cases hok
    | delete l start stop =>
      obtain ⟨hb, rfl⟩ | ⟨-, hstop⟩ := checkBoundary_bind_eq_error_iff.1 h
      · exact .offset htext List.mem_cons_self (.inr hb)
      · obtain ⟨hb, rfl⟩ | ⟨-, hrest⟩ := checkBoundary_bind_eq_error_iff.1 hstop
        · exact .offset htext (List.mem_cons_of_mem _ (List.mem_singleton_self stop)) (.inr hb)
        · by_cases hs : stop < start
          · simp only [if_pos hs] at hrest
            cases hrest
            exact .reversed hs
          · simp only [if_neg hs] at hrest
            cases hrest
    | join l =>
      by_cases hnext : l + 1 < lines.length
      · simp only [if_pos hnext] at h
        cases h
      · simp only [if_neg hnext] at h
        cases h
        exact .lastLine (Nat.le_of_not_lt hnext)
    | deleteLine l =>
      by_cases hone : lines.length = 1
      · simp only [if_pos hone] at h
        cases h
      · simp only [if_neg hone] at h
        cases h

theorem Applies.line_lt (h : e.Applies lines) : e.line < lines.length := by
  cases e with
  | insert l offset inserted => exact (List.getElem?_eq_some_iff.1 h.choose_spec.1).1
  | newline l offset => exact (List.getElem?_eq_some_iff.1 h.choose_spec.1).1
  | delete l start stop => exact (List.getElem?_eq_some_iff.1 h.choose_spec.1).1
  | join l => exact Nat.lt_of_succ_lt h
  | deleteLine l => exact h

theorem Applies.isBoundary {text : Text} {n : Nat} (h : e.Applies lines)
    (htext : lines[e.line]? = some text) (hn : n ∈ e.offsets) : text.IsBoundary n := by
  cases e with
  | insert l offset inserted =>
    obtain ⟨text', htext', hb⟩ := h
    cases htext.symm.trans htext'
    cases List.mem_singleton.1 hn
    exact hb
  | newline l offset =>
    obtain ⟨text', htext', hb⟩ := h
    cases htext.symm.trans htext'
    cases List.mem_singleton.1 hn
    exact hb
  | delete l start stop =>
    obtain ⟨text', htext', hstart, hstop, -⟩ := h
    cases htext.symm.trans htext'
    simp only [offsets, List.mem_cons, List.not_mem_nil, or_false] at hn
    rcases hn with rfl | rfl
    · exact hstart
    · exact hstop
  | join l => cases hn
  | deleteLine l => cases hn

theorem Obstacle.not_applies (h : e.Obstacle lines err) : ¬ e.Applies lines := by
  intro ha
  cases h with
  | line hline => exact Nat.not_le_of_lt ha.line_lt hline
  | offset htext hn hbad =>
    have hb := ha.isBoundary htext hn
    rcases hbad with hlong | hsplit
    · exact Nat.not_le_of_lt hlong hb.le_byteSize
    · exact hsplit hb
  | reversed hs =>
    obtain ⟨-, -, -, -, hle⟩ := ha
    exact Nat.not_le_of_lt hs hle
  | lastLine hlast => exact Nat.not_le_of_lt ha hlast

theorem exists_range_eq_error_iff :
    (∃ err, e.range lines = .error err) ↔ ∃ err, e.Obstacle lines err := by
  constructor
  · rintro ⟨err, h⟩
    exact ⟨err, obstacle_of_range_eq_error h⟩
  · rintro ⟨err, h⟩
    cases hr : e.range lines with
    | error err' => exact ⟨err', rfl⟩
    | ok r => exact absurd (range_eq_ok_iff.1 hr).1 h.not_applies

end Checks

def modifyAt? (lines : List Text) (n : Nat) (step : Text → Option Text) : Option (List Text) := do
  return lines.set n (← step (← lines[n]?))

def putAt? (lines : List Text) (n : Nat) (line : Text) : Option (List Text) :=
  if n ≤ lines.length then some (lines.insertIdx n line) else none

def takeAt? (lines : List Text) (n : Nat) : Option (Text × List Text) := do
  return (← lines[n]?, lines.eraseIdx n)

def putBehind? : List Text → Nat → List Text → Option (List Text × Nat)
  | lines, n, [] => some (lines, n)
  | lines, n, piece :: pieces => do putBehind? (← putAt? lines (n + 1) piece) (n + 1) pieces

def steps? (e : Edit) (lines : List Text) : Option (List Text) :=
  match e with
  | insert l offset inserted => do
    let (before, after) ← (← lines[l]?).splitAt? offset
    let pieces := inserted.splitLines
    let lines ← modifyAt? (lines.set l before) l fun t =>
      t.insertAt? t.byteSize (pieces.head?.getD [])
    let (lines, last) ← putBehind? lines l pieces.tail
    modifyAt? lines last fun t => some (t ++ after)
  | newline l offset => do
    let (before, after) ← (← lines[l]?).splitAt? offset
    putAt? (lines.set l before) (l + 1) after
  | delete l start stop => modifyAt? lines l fun t => (t.cut? start stop).map Prod.snd
  | join l => do
    let (next, lines) ← takeAt? lines (l + 1)
    modifyAt? lines l fun t => some (t ++ next)
  | deleteLine l =>
    if lines.length = 1 then modifyAt? lines 0 fun _ => some []
    else (takeAt? lines l).map Prod.snd

section Steps

variable (before : List Text) (t : Text) (after : List Text)

theorem set_middle (u : Text) :
    (before ++ t :: after).set before.length u = before ++ u :: after := by
  simp

theorem drop_middle : (before ++ t :: after).drop (before.length + 1) = after := by
  simp

theorem modifyAt?_middle (step : Text → Option Text) :
    modifyAt? (before ++ t :: after) before.length step =
      (step t).map fun u => before ++ u :: after := by
  have hget : (before ++ t :: after)[before.length]? = some t := by simp
  rw [modifyAt?, hget, Option.bind_eq_bind, Option.bind_some]
  cases step t with
  | none => rfl
  | some u => exact congrArg some (set_middle before t after u)

theorem putAt?_middle : putAt? (before ++ after) before.length t = some (before ++ t :: after) := by
  have hput : (before ++ after).insertIdx before.length t = before ++ t :: after := by
    induction before with
    | nil => rfl
    | cons b bs ih => exact congrArg (b :: ·) ih
  rw [putAt?, if_pos (by rw [List.length_append]; exact Nat.le_add_right _ _), hput]

theorem putBehind?_middle (pieces : List Text) :
    putBehind? (before ++ t :: after) before.length pieces =
      some (before ++ t :: (pieces ++ after), before.length + pieces.length) := by
  induction pieces generalizing before t with
  | nil => rfl
  | cons piece pieces ih =>
    have hput := putAt?_middle (before ++ [t]) piece after
    have hrest := ih (before ++ [t]) piece
    simp only [List.append_assoc, List.singleton_append, List.length_append,
      List.length_singleton] at hput hrest
    rw [putBehind?, hput]
    simp only [Option.bind_eq_bind, Option.bind_some, hrest, List.length_cons, List.cons_append,
      Nat.add_assoc, Nat.add_comm 1]

theorem modifyAt?_last (pieces : List Text) (rest : Text) :
    modifyAt? (before ++ t :: (pieces ++ after)) (before.length + pieces.length)
        (fun u => some (u ++ rest)) =
      some (before ++ surround [] (t :: pieces) rest ++ after) := by
  induction pieces generalizing before t with
  | nil =>
    rw [List.nil_append, List.length_nil, Nat.add_zero, modifyAt?_middle]
    simp [surround]
  | cons piece pieces ih =>
    have hrest := ih (before ++ [t]) piece
    simp only [List.append_assoc, List.singleton_append, List.length_append,
      List.length_singleton, Nat.add_assoc, Nat.add_comm 1] at hrest
    simp only [List.length_cons, List.cons_append, surround, List.append_assoc, List.nil_append,
      hrest]

end Steps

theorem takeAt?_of_lt {lines : List Text} {n : Nat} (h : n < lines.length) :
    takeAt? lines n = some (lines[n], lines.eraseIdx n) := by
  rw [takeAt?, List.getElem?_eq_getElem h]
  rfl

theorem surround_append (before t : Text) (pieces : List Text) (after : Text) :
    surround [] ((before ++ t) :: pieces) after = surround before (t :: pieces) after := by
  cases pieces <;> simp [surround]

theorem steps?_eq {e : Edit} {lines : List Text} (h : e.Applies lines) :
    e.steps? lines = e.applied? lines := by
  cases e with
  | insert l offset inserted =>
    obtain ⟨text, htext, hb⟩ := h
    obtain ⟨⟨head, tail⟩, hs⟩ := Option.isSome_iff_exists.1 hb
    obtain ⟨before, after, rfl, rfl⟩ := Text.exists_append_of_getElem? htext
    obtain ⟨first, pieces, hpieces⟩ := List.exists_cons_of_ne_nil (Text.splitLines_ne_nil inserted)
    have hfirst : Text.insertAt? head head.byteSize first = some (head ++ first) := by
      have hinsert := Text.insertAt?_append head [] first
      rwa [List.append_nil, List.append_nil] at hinsert
    simp only [steps?, applied?, htext, hs, hpieces, set_middle, List.take_left, drop_middle,
      List.head?_cons, List.tail_cons, Option.getD_some, Option.bind_eq_bind, Option.bind_some,
      modifyAt?_middle, hfirst, Option.map_some, putBehind?_middle, modifyAt?_last,
      surround_append]
    rfl
  | newline l offset =>
    obtain ⟨text, htext, hb⟩ := h
    obtain ⟨⟨head, tail⟩, hs⟩ := Option.isSome_iff_exists.1 hb
    obtain ⟨before, after, rfl, rfl⟩ := Text.exists_append_of_getElem? htext
    have hput := putAt?_middle (before ++ [head]) tail after
    simp only [List.append_assoc, List.singleton_append, List.length_append,
      List.length_singleton] at hput
    simp only [steps?, applied?, htext, hs, set_middle, List.take_left, drop_middle, hput,
      Option.bind_eq_bind, Option.bind_some]
    rfl
  | delete l start stop =>
    obtain ⟨text, htext, hstart, hstop, hle⟩ := h
    obtain ⟨head, piece, tail, rfl, rfl, rfl⟩ := Text.exists_append_of_boundaries hstart hstop hle
    simp only [steps?, applied?, modifyAt?, htext, Text.cut?_append, Option.bind_eq_bind,
      Option.bind_some, Option.map_some]
  | join l =>
    have hnext : l + 1 < lines.length := h
    have hkept : (lines.eraseIdx (l + 1))[l]? = lines[l]? :=
      List.getElem?_eraseIdx_of_lt (Nat.lt_succ_self l)
    simp only [steps?, applied?, takeAt?_of_lt hnext, modifyAt?, hkept,
      List.getElem?_eq_getElem hnext, List.getElem?_eq_getElem (Nat.lt_of_succ_lt hnext),
      Option.bind_eq_bind, Option.bind_some]
  | deleteLine l =>
    have hlt : l < lines.length := h
    by_cases hone : lines.length = 1
    · obtain ⟨last, rfl⟩ := List.length_eq_one_iff.1 hone
      rfl
    · simp only [steps?, applied?, if_neg hone, takeAt?_of_lt hlt, Option.map_some]

end Edit

namespace Buffer

def applySteps? (b : Buffer) (e : Edit) : Option (Except EditError LineEdit × Buffer) :=
  match e.range b.lines with
  | .error err => some (.error err, b)
  | .ok r => do
    return (.ok r, { b with lines := ← e.steps? b.lines, modified := true })

def applyWithSteps? {σ : Type} (b : Buffer) (hooks : EditHooks σ) (e : Edit) (s : σ) :
    Option (Except EditError LineEdit × Buffer × σ) :=
  match e.range b.lines with
  | .error err => some (.error err, b, s)
  | .ok r => do
    let s := hooks.before b r s
    match ← b.applySteps? e with
    | (.error err, b) => return (.error err, b, s)
    | (.ok r, b) => return (.ok r, b, hooks.after b r s)

theorem applySteps?_eq (b : Buffer) (e : Edit) : b.applySteps? e = some (b.apply e) := by
  cases hr : e.range b.lines with
  | error err => rw [applySteps?, apply_of_range_error hr, hr]
  | ok r =>
    obtain ⟨inserted, -, happlied⟩ := Edit.range_splice hr
    rw [applySteps?, apply, hr]
    simp only [Edit.steps?_eq (Edit.range_eq_ok_iff.1 hr).1, happlied, Option.bind_eq_bind,
      Option.bind_some, Option.getD_some]
    rfl

theorem applyWithSteps?_eq {σ : Type} (b : Buffer) (hooks : EditHooks σ) (e : Edit) (s : σ) :
    b.applyWithSteps? hooks e s = some (b.applyWith hooks e s) := by
  rw [applyWithSteps?, applyWith]
  cases e.range b.lines with
  | error err => rfl
  | ok r =>
    simp only [applySteps?_eq, Option.bind_eq_bind, Option.bind_some]
    rcases b.apply e with ⟨err | r', b'⟩ <;> rfl

/-- Whoever listens to the hooks, an edit that something stands in the way of is refused and
leaves everything as it was, the listener too. Any other edit is made between one call of
each hook, with the buffer before it and after it, and none of its steps fails. -/
theorem applyWith_atomic {σ : Type} (b : Buffer) (e : Edit) (hooks : EditHooks σ) (s : σ) :
    b.applyWithSteps? hooks e s = some (b.applyWith hooks e s) ∧
    ((∃ err, (b.applyWith hooks e s).1 = .error err) ↔ ∃ err, e.range b.lines = .error err) ∧
    ((∃ err, e.range b.lines = .error err) ↔ ∃ err, e.Obstacle b.lines err) ∧
    (∀ err, e.range b.lines = .error err → e.Obstacle b.lines err ∧
      b.apply e = (.error err, b) ∧ b.applyWith hooks e s = (.error err, b, s)) ∧
    ∀ r, e.range b.lines = .ok r → ∃ edited, b.applySteps? e = some (.ok r, edited) ∧
      b.apply e = (.ok r, edited) ∧ edited.modified = true ∧
      b.applyWith hooks e s = (.ok r, edited, hooks.after edited r (hooks.before b r s)) := by
  refine ⟨applyWithSteps?_eq b hooks e s, ?_, Edit.exists_range_eq_error_iff, ?_, ?_⟩
  · constructor
    · rintro ⟨err, h⟩
      cases hr : e.range b.lines with
      | error err' => exact ⟨err', rfl⟩
      | ok r =>
        rw [applyWith_of_range hr] at h
        cases h
    · rintro ⟨err, h⟩
      exact ⟨err, by rw [applyWith_of_range_error h]⟩
  · intro err h
    exact ⟨Edit.obstacle_of_range_eq_error h, apply_of_range_error h,
      applyWith_of_range_error h hooks s⟩
  · intro r h
    obtain ⟨inserted, -, happly⟩ := apply_of_range h
    refine ⟨(b.apply e).2, ?_, ?_, ?_, applyWith_of_range h hooks s⟩
    · rw [applySteps?_eq, happly]
    · rw [happly]
    · rw [happly]

end Buffer

end Highlight
