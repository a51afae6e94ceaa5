import Highlight.Proofs.Buffer.Splice
import Highlight.Proofs.Text.Joined

/-!
# Edits of a buffer are edits of its text

The lines of a buffer stand for the text that joins them. `Edit.onText?` says what each
edit does to that text: it puts a piece in at an offset, or takes one out. The lines after
an edit are the edited text split at its newlines, so a buffer that began with lines free
of newlines is its text for as long as it is edited.
-/

namespace Highlight

namespace Text

def removeAt? (t : Text) (n : Nat) (piece : Text) : Option Text := do
  let (before, rest) ← t.splitAt? n
  return before ++ (← rest.after? piece)

theorem removeAt?_append (t piece u : Text) :
    (t ++ (piece ++ u)).removeAt? t.byteSize piece = some (t ++ u) := by
  have hafter : (piece ++ u).after? piece = some u := after?_eq_some_iff.2 rfl
  simp [removeAt?, splitAt?_byteSize, hafter]

section Joined

variable {lines lines' : List Text} (before after : List Text) (x piece y : Text)

theorem joinLines_middle (h : lines ≠ []) (hjoin : joinLines lines = x ++ y) :
    joinLines (before ++ lines ++ after) =
      (before.flatMap (· ++ ['\n']) ++ x) ++ (y ++ after.flatMap ('\n' :: ·)) ∧
    lineStart (before ++ lines ++ after) before.length + x.byteSize =
      byteSize (before.flatMap (· ++ ['\n']) ++ x) := by
  constructor
  · rw [joinLines_append before after h, hjoin]
    simp only [List.append_assoc]
  · rw [List.append_assoc, lineStart_append, byteSize_append]

theorem insertAt?_joinLines (h : lines ≠ []) (h' : lines' ≠ []) (hjoin : joinLines lines = x ++ y)
    (hjoin' : joinLines lines' = x ++ (piece ++ y)) :
    (joinLines (before ++ lines ++ after)).insertAt?
        (lineStart (before ++ lines ++ after) before.length + x.byteSize) piece =
      some (joinLines (before ++ lines' ++ after)) := by
  obtain ⟨ht, hpos⟩ := joinLines_middle before after x _ h hjoin
  rw [hpos, ht, insertAt?_append, (joinLines_middle before after x _ h' hjoin').1]
  simp only [List.append_assoc]

theorem removeAt?_joinLines (h : lines ≠ []) (h' : lines' ≠ [])
    (hjoin : joinLines lines = x ++ (piece ++ y)) (hjoin' : joinLines lines' = x ++ y) :
    (joinLines (before ++ lines ++ after)).removeAt?
        (lineStart (before ++ lines ++ after) before.length + x.byteSize) piece =
      some (joinLines (before ++ lines' ++ after)) := by
  obtain ⟨ht, hpos⟩ := joinLines_middle before after x _ h hjoin
  rw [hpos, ht, List.append_assoc piece, removeAt?_append,
    (joinLines_middle before after x _ h' hjoin').1]

theorem cut?_joinLines (h : lines ≠ []) (h' : lines' ≠ [])
    (hjoin : joinLines lines = x ++ (piece ++ y)) (hjoin' : joinLines lines' = x ++ y) :
    (joinLines (before ++ lines ++ after)).cut?
        (lineStart (before ++ lines ++ after) before.length + x.byteSize)
        (lineStart (before ++ lines ++ after) before.length + (x.byteSize + piece.byteSize)) =
      some (piece, joinLines (before ++ lines' ++ after)) := by
  obtain ⟨ht, hpos⟩ := joinLines_middle before after x _ h hjoin
  rw [← Nat.add_assoc, hpos, ht, List.append_assoc piece, cut?_append,
    (joinLines_middle before after x _ h' hjoin').1]

end Joined

end Text

open Text

namespace Edit

/-- What an edit of lines does to the text that joins them. A line that is deleted goes with
the newline behind it, the last one with the newline in front, and the only one alone. -/
def onText? (e : Edit) (lines : List Text) : Option Text := do
  let t := joinLines lines
  let start := lineStart lines e.line
  let line ← lines[e.line]?
  match e with
  | insert _ offset piece => t.insertAt? (start + offset) piece
  | newline _ offset => t.insertAt? (start + offset) ['\n']
  | delete _ first last => (t.cut? (start + first) (start + last)).map Prod.snd
  | join _ => t.removeAt? (start + line.byteSize) ['\n']
  | deleteLine l =>
    if lines.length = 1 then t.removeAt? start line
    else if l + 1 < lines.length then t.removeAt? start (line ++ ['\n'])
    else t.removeAt? (start - 1) ('\n' :: line)

theorem joinLines_surround (before : Text) (lines : List Text) (after : Text) :
    joinLines (surround before lines after) = before ++ (joinLines lines ++ after) := by
  induction lines generalizing before with
  | nil => rfl
  | cons l ls ih =>
    cases ls with
    | nil => simp [surround, joinLines]
    | cons m ls =>
      have hne : surround [] (m :: ls) after ≠ [] := by
        refine List.ne_nil_of_length_pos ?_
        simp [length_surround]
      simp [surround, joinLines_cons, hne, ih]

theorem newlineFree_surround {before after : Text} {lines : List Text} (h : NewlineFree lines)
    (hb : '\n' ∉ before) (ha : '\n' ∉ after) : NewlineFree (surround before lines after) := by
  induction lines generalizing before with
  | nil => simp [surround, NewlineFree, hb, ha]
  | cons l ls ih =>
    obtain ⟨hl, hls⟩ := newlineFree_cons.1 h
    cases ls with
    | nil => simp [surround, NewlineFree, hl, hb, ha]
    | cons m ls => exact newlineFree_cons.2 ⟨by simp [hl, hb], ih hls List.not_mem_nil⟩

/-- The lines after an edit join to the edited text, and no line gets a newline. -/
structure Agrees (e : Edit) (lines edited : List Text) : Prop where
  applied : e.applied? lines = some edited
  onText : e.onText? lines = some (joinLines edited)
  newlineFree : NewlineFree lines → NewlineFree edited

section Agrees

variable (before after : List Text) (x piece y text next : Text)

theorem agrees_insert : (insert before.length x.byteSize piece).Agrees
    (before ++ (x ++ y) :: after) (before ++ surround x piece.splitLines y ++ after) where
  applied := by simp [applied?, splitAt?_byteSize]
  onText := by
    have hjoin := joinLines_surround x piece.splitLines y
    rw [joinLines_splitLines] at hjoin
    have hne : surround x piece.splitLines y ≠ [] := by
      refine List.ne_nil_of_length_pos ?_
      simp [length_surround, splitLines_ne_nil, length_splitLines]
    have hput := insertAt?_joinLines before after x piece y (List.cons_ne_nil (x ++ y) []) hne
      rfl hjoin
    simpa [onText?, line] using hput
  newlineFree := by simp +contextual [newlineFree_surround, newlineFree_splitLines]

theorem agrees_newline : (newline before.length x.byteSize).Agrees
    (before ++ (x ++ y) :: after) (before ++ [x, y] ++ after) where
  applied := by simp [applied?, splitAt?_byteSize]
  onText := by
    have hput := insertAt?_joinLines before after x ['\n'] y (List.cons_ne_nil (x ++ y) [])
      (List.cons_ne_nil x [y]) rfl rfl
    simpa [onText?, line] using hput
  newlineFree := by simp +contextual

theorem agrees_delete : (delete before.length x.byteSize (x.byteSize + piece.byteSize)).Agrees
    (before ++ (x ++ (piece ++ y)) :: after) (before ++ [x ++ y] ++ after) where
  applied := by simp [applied?, cut?_append]
  onText := by
    have hcut := cut?_joinLines before after x piece y
      (List.cons_ne_nil (x ++ (piece ++ y)) []) (List.cons_ne_nil (x ++ y) []) rfl rfl
    simp only [List.append_assoc, List.singleton_append] at hcut
    simp [onText?, line, hcut]
  newlineFree := by simp +contextual

theorem agrees_join : (join before.length).Agrees
    (before ++ text :: next :: after) (before ++ [text ++ next] ++ after) where
  applied := by
    have hnext : before.length + 1 < (before ++ text :: next :: after).length := by simp
    have hset := LineEdit.set_eraseIdx_eq_splice hnext (text ++ next)
    simp [applied?, hset, LineEdit.splice, LineEdit.oldStop]
  onText := by
    have htake := removeAt?_joinLines before after text ['\n'] next
      (List.cons_ne_nil text [next]) (List.cons_ne_nil (text ++ next) []) rfl rfl
    simpa [onText?, line] using htake
  newlineFree := by simp +contextual

theorem agrees_deleteLine : (deleteLine before.length).Agrees
    (before ++ text :: next :: after) (before ++ [next] ++ after) where
  applied := by
    have hone : before.length + (after.length + 1 + 1) ≠ 1 := by omega
    simp [applied?, hone, List.eraseIdx_append_of_length_le]
  onText := by
    have hone : before.length + (after.length + 1 + 1) ≠ 1 := by omega
    have htake := removeAt?_joinLines before after [] (text ++ ['\n']) next
      (List.cons_ne_nil text [next]) (List.cons_ne_nil next []) (by simp [joinLines]) rfl
    simpa [onText?, line, hone, byteSize] using htake
  newlineFree := by simp +contextual

theorem agrees_deleteLine_last : (deleteLine (before.length + 1)).Agrees
    (before ++ [text, next]) (before ++ [text]) where
  applied := by simp [applied?, List.eraseIdx_append_of_length_le]
  onText := by
    -- the newline in front of the last line is the one that ends the line before it
    have hstart : lineStart (before ++ [text, next]) (before.length + 1) - 1 =
        lineStart (before ++ [text, next]) before.length + text.byteSize := by
      have htext : (before ++ [text, next])[before.length]? = some text := by simp
      rw [lineStart_succ htext, Nat.add_sub_cancel]
    have htake := removeAt?_joinLines before [] text ('\n' :: next) []
      (List.cons_ne_nil text [next]) (List.cons_ne_nil text []) (by simp [joinLines])
      (List.append_nil text).symm
    simpa [onText?, line, hstart] using htake
  newlineFree := by simp +contextual

theorem agrees_deleteLine_only : (deleteLine 0).Agrees [text] [[]] where
  applied := rfl
  onText := by
    have htake := removeAt?_append [] text []
    simpa [onText?, line, joinLines, byteSize] using htake
  newlineFree := by simp

end Agrees

theorem exists_agrees {e : Edit} {lines : List Text} (h : e.Applies lines) :
    ∃ edited, e.Agrees lines edited := by
  cases e with
  | insert l offset piece =>
    obtain ⟨text, htext, hb⟩ := h
    obtain ⟨x, y, rfl, rfl⟩ := isBoundary_iff.1 hb
    obtain ⟨before, after, rfl, rfl⟩ := exists_append_of_getElem? htext
    exact ⟨_, agrees_insert before after x piece y⟩
  | newline l offset =>
    obtain ⟨text, htext, hb⟩ := h
    obtain ⟨x, y, rfl, rfl⟩ := isBoundary_iff.1 hb
    obtain ⟨before, after, rfl, rfl⟩ := exists_append_of_getElem? htext
    exact ⟨_, agrees_newline before after x y⟩
  | delete l start stop =>
    obtain ⟨text, htext, hstart, hstop, hle⟩ := h
    obtain ⟨x, piece, y, rfl, rfl, rfl⟩ := exists_append_of_boundaries hstart hstop hle
    obtain ⟨before, after, rfl, rfl⟩ := exists_append_of_getElem? htext
    exact ⟨_, agrees_delete before after x piece y⟩
  | join l =>
    obtain ⟨before, text, next, after, rfl, rfl⟩ := exists_append_of_succ_lt h
    exact ⟨_, agrees_join before after text next⟩
  | deleteLine l =>
    have hlt : l < lines.length := h
    by_cases hnext : l + 1 < lines.length
    · obtain ⟨before, text, next, after, rfl, rfl⟩ := exists_append_of_succ_lt hnext
      exact ⟨_, agrees_deleteLine before after text next⟩
    obtain ⟨before, after, hlines, rfl⟩ := exists_append_of_getElem? (List.getElem?_eq_getElem hlt)
    generalize lines[before.length] = text at hlines
    subst hlines
    obtain rfl : after = [] := by
      rw [List.length_append, List.length_cons] at hnext
      exact List.eq_nil_of_length_eq_zero (by omega)
    obtain rfl | ⟨before, previous, rfl⟩ := List.eq_nil_or_concat before
    · exact ⟨_, agrees_deleteLine_only text⟩
    · exact ⟨_, by simpa using agrees_deleteLine_last before previous text⟩

end Edit

inductive Opening
  | empty (name : Text)
  | file (path content : Text)
  | given (name : Text) (lines : List Text)

namespace Opening

def buffer : Opening → Buffer
  | empty name => { name := name }
  | file path content => .ofFile path content
  | given name lines => .ofLines name lines

def NewlineFree : Opening → Prop
  | given _ lines => Text.NewlineFree lines
  | _ => True

theorem lines_buffer (o : Opening) :
    ∃ lines, o.buffer.lines = (if lines = [] then [[]] else lines) ∧
      (o.NewlineFree → Text.NewlineFree lines) := by
  cases o with
  | empty name => exact ⟨[], rfl, fun _ => newlineFree_nil⟩
  | file path content => exact ⟨content.fileLines, rfl, fun _ => newlineFree_fileLines content⟩
  | given name lines => exact ⟨lines, rfl, id⟩

theorem lines_ne_nil (o : Opening) : o.buffer.lines ≠ [] := by
  obtain ⟨lines, hlines, -⟩ := o.lines_buffer
  rw [hlines]
  split <;> simp_all

theorem NewlineFree.lines {o : Opening} (h : o.NewlineFree) : Text.NewlineFree o.buffer.lines := by
  obtain ⟨lines, hlines, hfree⟩ := o.lines_buffer
  rw [hlines]
  split
  · simp
  · exact hfree h

end Opening

namespace Buffer

inductive EditedTo : Buffer → List Edit → Buffer → Prop
  | nil (b : Buffer) : EditedTo b [] b
  | cons {b b' : Buffer} {e : Edit} {es : List Edit} {r : LineEdit} :
      (b.apply e).1 = .ok r → EditedTo (b.apply e).2 es b' → EditedTo b (e :: es) b'

variable {b b' : Buffer} {e : Edit} {es : List Edit} {r : LineEdit}

theorem range_of_apply (h : (b.apply e).1 = .ok r) : e.range b.lines = .ok r := by
  cases hr : e.range b.lines with
  | error err => simp [apply, hr] at h
  | ok r' => simpa [apply, hr] using h

theorem lines_apply_eq (h : (b.apply e).1 = .ok r) :
    e.onText? b.lines = some (joinLines (b.apply e).2.lines) ∧
      (NewlineFree b.lines → NewlineFree (b.apply e).2.lines) := by
  have hr := range_of_apply h
  obtain ⟨edited, hagrees⟩ := Edit.exists_agrees (Edit.range_eq_ok_iff.1 hr).1
  have hlines : (b.apply e).2.lines = edited := by simp [apply, hr, hagrees.applied]
  rw [hlines]
  exact ⟨hagrees.onText, hagrees.newlineFree⟩

theorem lines_apply_ne_nil (h : (b.apply e).1 = .ok r) : (b.apply e).2.lines ≠ [] := by
  have hr := range_of_apply h
  obtain ⟨inserted, hfits, happly⟩ := apply_of_range hr
  rw [happly]
  exact List.ne_nil_of_length_pos (Edit.length_splice_pos hr hfits)

theorem EditedTo.lines_ne_nil (h : EditedTo b es b') (hne : b.lines ≠ []) : b'.lines ≠ [] := by
  induction h with
  | nil b => exact hne
  | cons happly _ ih => exact ih (lines_apply_ne_nil happly)

theorem EditedTo.newlineFree (h : EditedTo b es b') (hb : NewlineFree b.lines) :
    NewlineFree b'.lines := by
  induction h with
  | nil b => exact hb
  | cons happly _ ih => exact ih ((lines_apply_eq happly).2 hb)

/-- However a buffer was edited since it was opened, it has a line, none of its lines holds
a newline if none did at first, and the lines after one more edit are those of its text with
that edit made in the text. -/
theorem EditedTo.lines_apply_eq_splitLines {o : Opening} (h : EditedTo o.buffer es b) :
    b.lines ≠ [] ∧ (o.NewlineFree → NewlineFree b.lines) ∧
      (NewlineFree b.lines → ∀ e r, (b.apply e).1 = .ok r → ∃ edited,
        e.onText? b.lines = some edited ∧ (b.apply e).2.lines = splitLines edited) := by
  refine ⟨h.lines_ne_nil o.lines_ne_nil, fun ho => h.newlineFree ho.lines, ?_⟩
  intro hb e r happly
  obtain ⟨htext, hfree⟩ := lines_apply_eq happly
  exact ⟨_, htext, (splitLines_joinLines (hfree hb) (lines_apply_ne_nil happly)).symm⟩

theorem EditedTo.lines_apply_eq_splitLines_file :
    ∃ b, EditedTo (Opening.buffer (.file ['f'] ['é', '\r', '\n', 'b']))
        [.insert 1 0 ['x', '\n', '\n'], .join 0] b ∧
      b.lines = [['é', 'x'], [], ['b']] ∧ NewlineFree b.lines ∧
      ∃ edited, Edit.onText? (.deleteLine 2) b.lines = some edited ∧
        (b.apply (.deleteLine 2)).2.lines = splitLines edited := by
  have hpaste : ((Opening.buffer (.file ['f'] ['é', '\r', '\n', 'b'])).apply
      (.insert 1 0 ['x', '\n', '\n'])).1 = .ok ⟨1, 1, 3⟩ := rfl
  have hjoin : (Buffer.apply ⟨[['é'], ['x'], [], ['b']], ['f'], some ['f'], .file, none, true⟩
      (.join 0)).1 = .ok ⟨0, 2, 1⟩ := rfl
  have hrun := EditedTo.cons hpaste (.cons hjoin (.nil _))
  obtain ⟨-, hfree, hedit⟩ := lines_apply_eq_splitLines hrun
  exact ⟨_, hrun, rfl, hfree trivial, hedit (hfree trivial) (.deleteLine 2) ⟨2, 1, 0⟩ rfl⟩

end Buffer

end Highlight
