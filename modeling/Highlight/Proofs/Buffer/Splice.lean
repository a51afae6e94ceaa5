import Highlight.Buffer

/-!
# Edits of a buffer are splices

An edit announces the lines that it touches before it is made, and announces them exactly
if it can be made (`range_eq_ok_iff`). The announcement is true: the lines after the edit
are the lines before it with the announced ones replaced by as many new lines as announced
(`range_splice`). What follows a document line by line can therefore rely on the announced
numbers.
-/

namespace Highlight

namespace Text

theorem insertAt?_append (t u piece : Text) :
    (t ++ u).insertAt? t.byteSize piece = some (t ++ piece ++ u) := by
  rw [insertAt?, splitAt?_byteSize]
  rfl

theorem cut?_append (t u v : Text) :
    (t ++ (u ++ v)).cut? t.byteSize (t.byteSize + u.byteSize) = some (u, t ++ v) := by
  rw [cut?, if_pos (Nat.le_add_right _ _), splitAt?_byteSize, Nat.add_sub_cancel_left]
  simp only [Option.bind_eq_bind, Option.bind_some, splitAt?_byteSize]
  rfl

theorem exists_append_of_getElem? {lines : List Text} {n : Nat} {l : Text}
    (h : lines[n]? = some l) : ∃ before after, lines = before ++ l :: after ∧ before.length = n := by
  obtain ⟨hlt, rfl⟩ := List.getElem?_eq_some_iff.1 h
  refine ⟨lines.take n, lines.drop (n + 1), ?_, List.length_take_of_le (Nat.le_of_lt hlt)⟩
  rw [← List.drop_eq_getElem_cons hlt, List.take_append_drop]

theorem exists_append_of_succ_lt {lines : List Text} {n : Nat} (h : n + 1 < lines.length) :
    ∃ before l m after, lines = before ++ l :: m :: after ∧ before.length = n := by
  refine ⟨lines.take n, lines[n], lines[n + 1], lines.drop (n + 1 + 1), ?_,
    List.length_take_of_le (by omega)⟩
  rw [← List.drop_eq_getElem_cons h, ← List.drop_eq_getElem_cons (Nat.lt_of_succ_lt h),
    List.take_append_drop]

end Text

namespace LineEdit

variable {α : Type} {lines : List α} {n : Nat}

theorem set_eq_splice (h : n < lines.length) (a : α) :
    lines.set n a = (single n).splice lines [a] := by
  rw [List.set_eq_take_append_cons_drop, if_pos h, splice, List.append_assoc]
  rfl

theorem eraseIdx_eq_splice (lines : List α) (n : Nat) :
    lines.eraseIdx n = splice ⟨n, 1, 0⟩ lines [] := by
  rw [List.eraseIdx_eq_take_drop_succ, splice, List.append_nil]
  rfl

theorem set_eraseIdx_eq_splice (h : n + 1 < lines.length) (a : α) :
    (lines.eraseIdx (n + 1)).set n a = splice ⟨n, 2, 1⟩ lines [a] := by
  have hn : n < (lines.eraseIdx (n + 1)).length := by
    rw [List.length_eraseIdx_of_lt h]
    omega
  rw [set_eq_splice hn, List.eraseIdx_eq_take_drop_succ, splice, splice]
  simp only [single, oldStop]
  rw [List.take_append_of_le_length (by rw [List.length_take]; omega), List.take_take,
    Nat.min_eq_left (by omega), List.drop_left' (by rw [List.length_take]; omega)]

end LineEdit

namespace Edit

def Applies (e : Edit) (lines : List Text) : Prop :=
  match e with
  | insert l offset _ | newline l offset =>
    ∃ text, lines[l]? = some text ∧ text.IsBoundary offset
  | delete l start stop =>
    ∃ text, lines[l]? = some text ∧ text.IsBoundary start ∧ text.IsBoundary stop ∧ start ≤ stop
  | join l => l + 1 < lines.length
  | deleteLine l => l < lines.length

def touched (e : Edit) (lines : List Text) : LineEdit :=
  match e with
  | insert l _ inserted => ⟨l, 1, 1 + inserted.count '\n'⟩
  | newline l _ => ⟨l, 1, 2⟩
  | delete l _ _ => .single l
  | join l => ⟨l, 2, 1⟩
  | deleteLine l => if lines.length = 1 then .single 0 else ⟨l, 1, 0⟩

theorem checkBoundary_bind_eq_ok_iff {text : Text} {line offset : Nat}
    {next : Unit → Except EditError LineEdit} {r : LineEdit} :
    checkBoundary text line offset >>= next = .ok r ↔
      text.IsBoundary offset ∧ next () = .ok r := by
  rw [checkBoundary]
  split <;> simp_all [bind, Except.bind]

theorem range_eq_ok_iff {e : Edit} {lines : List Text} {r : LineEdit} :
    e.range lines = .ok r ↔ e.Applies lines ∧ e.touched lines = r := by
  rw [range]
  cases htext : lines[e.line]? with
  | none =>
    have hout := List.getElem?_eq_none_iff.1 htext
    have hnot : ¬ e.Applies lines := by
      cases e with
      | join l => simp only [Applies, line] at hout ⊢; omega
      | deleteLine l => simp only [Applies, line] at hout ⊢; omega
      | _ => simp_all [Applies, line]
    simp [hnot]
  | some text =>
    obtain ⟨hlt, -⟩ := List.getElem?_eq_some_iff.1 htext
    cases e with
    | insert l offset inserted =>
      simp_all [checkBoundary_bind_eq_ok_iff, Applies, touched, line, pure, Except.pure]
    | newline l offset =>
      simp_all [checkBoundary_bind_eq_ok_iff, Applies, touched, line, pure, Except.pure]
    | delete l start stop =>
      simp only [checkBoundary_bind_eq_ok_iff]
      simp only [line] at htext
      by_cases hs : stop < start
      · simp [Applies, htext, hs, Nat.not_le_of_lt hs, bind, Except.bind, throw, throwThe,
          MonadExceptOf.throw]
      · simp [Applies, touched, htext, hs, Nat.le_of_not_lt hs, pure, Except.pure, and_assoc]
    | join l =>
      by_cases hnext : l + 1 < lines.length
      · simp [Applies, touched, hnext, pure, Except.pure]
      · simp [Applies, hnext, throw, throwThe, MonadExceptOf.throw]
    | deleteLine l =>
      by_cases hone : lines.length = 1
      · simp_all [Applies, touched, line, pure, Except.pure]
      · simp_all [Applies, touched, line, pure, Except.pure]

theorem length_surround (before : Text) {lines : List Text} (after : Text) (h : lines ≠ []) :
    (surround before lines after).length = lines.length := by
  induction lines generalizing before with
  | nil => exact absurd rfl h
  | cons l ls ih =>
    cases ls with
    | nil => rfl
    | cons m ls => exact congrArg (· + 1) (ih [] (List.cons_ne_nil m ls))

theorem range_splice {e : Edit} {lines : List Text} {r : LineEdit} (h : e.range lines = .ok r) :
    ∃ inserted, r.Fits lines inserted ∧ e.applied? lines = some (r.splice lines inserted) := by
  obtain ⟨happlies, rfl⟩ := range_eq_ok_iff.1 h
  cases e with
  | insert l offset inserted =>
    obtain ⟨text, htext, hb⟩ := happlies
    obtain ⟨hlt, -⟩ := List.getElem?_eq_some_iff.1 htext
    obtain ⟨⟨before, after⟩, hs⟩ := Option.isSome_iff_exists.1 hb
    refine ⟨surround before inserted.splitLines after, ⟨hlt, ?_⟩, ?_⟩
    · rw [length_surround _ _ (Text.splitLines_ne_nil inserted), Text.length_splitLines,
        touched, Nat.add_comm]
    · simp only [applied?, htext, hs, Option.bind_eq_bind, Option.bind_some]
      rfl
  | newline l offset =>
    obtain ⟨text, htext, hb⟩ := happlies
    obtain ⟨hlt, -⟩ := List.getElem?_eq_some_iff.1 htext
    obtain ⟨⟨before, after⟩, hs⟩ := Option.isSome_iff_exists.1 hb
    refine ⟨[before, after], ⟨hlt, rfl⟩, ?_⟩
    simp only [applied?, htext, hs, Option.bind_eq_bind, Option.bind_some, LineEdit.splice,
      List.append_assoc]
    rfl
  | delete l start stop =>
    obtain ⟨text, htext, hstart, hstop, hle⟩ := happlies
    obtain ⟨hlt, -⟩ := List.getElem?_eq_some_iff.1 htext
    obtain ⟨before, piece, after, rfl, rfl, rfl⟩ :=
      Text.exists_append_of_boundaries hstart hstop hle
    refine ⟨[before ++ after], ⟨hlt, rfl⟩, ?_⟩
    simp only [applied?, htext, Text.cut?_append, Option.bind_eq_bind, Option.bind_some,
      LineEdit.set_eq_splice hlt]
    rfl
  | join l =>
    have hnext : l + 1 < lines.length := happlies
    refine ⟨[lines[l] ++ lines[l + 1]], ⟨hnext, rfl⟩, ?_⟩
    simp only [applied?, List.getElem?_eq_getElem hnext,
      List.getElem?_eq_getElem (Nat.lt_of_succ_lt hnext), Option.bind_eq_bind, Option.bind_some,
      LineEdit.set_eraseIdx_eq_splice hnext]
    rfl
  | deleteLine l =>
    have hlt : l < lines.length := happlies
    by_cases hone : lines.length = 1
    · obtain ⟨last, rfl⟩ := List.length_eq_one_iff.1 hone
      exact ⟨[[]], ⟨Nat.le_refl 1, rfl⟩, rfl⟩
    · simp only [touched, if_neg hone]
      refine ⟨[], ⟨hlt, rfl⟩, ?_⟩
      rw [applied?, if_neg hone, LineEdit.eraseIdx_eq_splice]

theorem removed_lt {e : Edit} {lines : List Text} {r : LineEdit} (h : e.range lines = .ok r) :
    r.removed < lines.length + r.inserted := by
  obtain ⟨inserted, ⟨hstop, -⟩, -⟩ := range_splice h
  obtain ⟨happlies, rfl⟩ := range_eq_ok_iff.1 h
  rw [LineEdit.oldStop] at hstop
  cases e with
  | deleteLine l =>
    simp only [touched] at hstop ⊢
    split at hstop <;> simp_all [LineEdit.single]
    omega
  | _ => simp only [touched, LineEdit.single] at hstop ⊢; omega

theorem length_splice_pos {e : Edit} {lines inserted : List Text} {r : LineEdit}
    (h : e.range lines = .ok r) (hfits : r.Fits lines inserted) :
    0 < (r.splice lines inserted).length := by
  have hremoved := removed_lt h
  rw [hfits.length_splice, LineEdit.newStop, LineEdit.oldStop]
  omega

end Edit

namespace Buffer

theorem apply_of_range {b : Buffer} {e : Edit} {r : LineEdit} (h : e.range b.lines = .ok r) :
    ∃ inserted, r.Fits b.lines inserted ∧
      b.apply e = (.ok r, { b with lines := r.splice b.lines inserted, modified := true }) := by
  obtain ⟨inserted, hfits, happlied⟩ := Edit.range_splice h
  refine ⟨inserted, hfits, ?_⟩
  rw [apply, h]
  dsimp only
  rw [happlied, Option.getD_some]

theorem apply_of_range_error {b : Buffer} {e : Edit} {err : EditError}
    (h : e.range b.lines = .error err) : b.apply e = (.error err, b) := by
  rw [apply, h]

/-- The announced numbers are those of the change: as many lines as announced come in the
place of the announced ones, all others are kept, and some line is left. -/
theorem lines_apply_of_range {b : Buffer} {e : Edit} {r : LineEdit}
    (h : e.range b.lines = .ok r) :
    r.start + r.removed ≤ b.lines.length ∧ (b.apply e).1 = .ok r ∧
    (∃ inserted, inserted.length = r.inserted ∧ (b.apply e).2.lines =
      b.lines.take r.start ++ inserted ++ b.lines.drop (r.start + r.removed)) ∧
    (b.apply e).2.lines.length = b.lines.length - r.removed + r.inserted ∧
    1 ≤ (b.apply e).2.lines.length ∧
    (∀ i < r.start, (b.apply e).2.lines[i]? = b.lines[i]?) ∧
    ∀ i, (b.apply e).2.lines[r.start + r.inserted + i]? = b.lines[r.start + r.removed + i]? := by
  obtain ⟨inserted, hfits, happly⟩ := apply_of_range h
  have hstop : r.start + r.removed ≤ b.lines.length := hfits.1
  have hlength : (r.splice b.lines inserted).length = b.lines.length - r.removed + r.inserted := by
    rw [hfits.length_splice, LineEdit.newStop, LineEdit.oldStop]
    omega
  rw [happly]
  refine ⟨hstop, rfl, ⟨inserted, hfits.2, rfl⟩, hlength, Edit.length_splice_pos h hfits, ?_, ?_⟩
  · intro i hi
    have htake := congrArg (·[i]?) hfits.take_start_splice
    simpa [List.getElem?_take, hi] using htake
  · intro i
    have hdrop := congrArg (·[i]?) hfits.drop_newStop_splice
    simpa [List.getElem?_drop, LineEdit.newStop, LineEdit.oldStop] using hdrop

theorem lines_apply_of_range_paste :
    let b : Buffer := { lines := [['a', '\n'], ['λ', 'b'], []], name := ['n'] }
    let e : Edit := .insert 1 2 ['x', '\n', '\n', 'y']
    (b.apply e).2.lines.length = b.lines.length - 1 + 3 ∧
      (∀ i < 1, (b.apply e).2.lines[i]? = b.lines[i]?) ∧
      (∀ i, (b.apply e).2.lines[1 + 3 + i]? = b.lines[1 + 1 + i]?) ∧
      (b.apply e).2.lines = [['a', '\n'], ['λ', 'x'], [], ['y', 'b'], []] := by
  intro b e
  have hrange : e.range b.lines = .ok ⟨1, 1, 3⟩ := rfl
  obtain ⟨-, -, -, hlength, -, hhead, htail⟩ := lines_apply_of_range hrange
  exact ⟨hlength, hhead, htail, rfl⟩

theorem applyWith_of_range {σ : Type} {b : Buffer} {e : Edit} {r : LineEdit}
    (h : e.range b.lines = .ok r) (hooks : EditHooks σ) (s : σ) :
    b.applyWith hooks e s =
      (.ok r, (b.apply e).2, hooks.after (b.apply e).2 r (hooks.before b r s)) := by
  simp only [applyWith, apply, h]

theorem applyWith_of_range_error {σ : Type} {b : Buffer} {e : Edit} {err : EditError}
    (h : e.range b.lines = .error err) (hooks : EditHooks σ) (s : σ) :
    b.applyWith hooks e s = (.error err, b, s) := by
  rw [applyWith, h]

end Buffer

end Highlight
