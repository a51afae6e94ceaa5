import Highlight.Text

/-!
# Lines of a joined text

Lines without newlines and the text that joins them determine each other. In the joined
text each line starts at an offset of its own, behind the lines before it and one newline
for each of them, and every offset falls on one line.
-/

namespace Highlight

namespace Text

def NewlineFree (lines : List Text) : Prop := ∀ l ∈ lines, '\n' ∉ l

instance (lines : List Text) : Decidable (NewlineFree lines) :=
  inferInstanceAs (Decidable (∀ l ∈ lines, '\n' ∉ l))

def lineStart (lines : List Text) (n : Nat) : Nat :=
  byteSize ((lines.take n).flatMap (· ++ ['\n']))

/-- An offset of the joined text falls on a line at an offset within that line. The newline
behind a line is not a part of it, the place in front of that newline is. -/
def FallsOn (lines : List Text) (pos n offset : Nat) : Prop :=
  ∃ l, lines[n]? = some l ∧ offset ≤ l.byteSize ∧ pos = lineStart lines n + offset

variable {l : Text} {lines before after : List Text} {pos n offset : Nat}

@[simp] theorem newlineFree_nil : NewlineFree [] := by simp [NewlineFree]

@[simp] theorem newlineFree_append :
    NewlineFree (before ++ after) ↔ NewlineFree before ∧ NewlineFree after := by
  simp only [NewlineFree, List.mem_append, or_imp, forall_and]

@[simp] theorem newlineFree_cons : NewlineFree (l :: lines) ↔ '\n' ∉ l ∧ NewlineFree lines := by
  simp only [NewlineFree, List.forall_mem_cons]

theorem joinLines_cons (l : Text) (h : lines ≠ []) :
    joinLines (l :: lines) = l ++ '\n' :: joinLines lines := by
  cases lines with
  | nil => exact absurd rfl h
  | cons m ls => rfl

theorem joinLines_eq_append (l : Text) (lines : List Text) :
    joinLines (l :: lines) = l ++ lines.flatMap ('\n' :: ·) := by
  induction lines generalizing l with
  | nil => simp [joinLines]
  | cons m ls ih => simp [joinLines, ih]

theorem joinLines_append (before after : List Text) (h : lines ≠ []) :
    joinLines (before ++ lines ++ after) =
      before.flatMap (· ++ ['\n']) ++ joinLines lines ++ after.flatMap ('\n' :: ·) := by
  induction before with
  | nil =>
    obtain ⟨l, ls, rfl⟩ := List.exists_cons_of_ne_nil h
    simp [joinLines_eq_append]
  | cons b bs ih =>
    have hrest : bs ++ lines ++ after ≠ [] := by simp [h]
    simp only [List.cons_append, List.flatMap_cons, joinLines_cons b hrest, ih]
    simp

theorem splitLines_of_not_mem (h : '\n' ∉ l) : splitLines l = [l] := by
  induction l with
  | nil => rfl
  | cons c l ih =>
    simp only [List.mem_cons, not_or] at h
    simp [splitLines, Ne.symm h.1, ih h.2]

theorem splitLines_append_newline (t : Text) (h : '\n' ∉ l) :
    splitLines (l ++ '\n' :: t) = l :: splitLines t := by
  induction l with
  | nil => simp [splitLines]
  | cons c l ih =>
    simp only [List.mem_cons, not_or] at h
    simp [splitLines, Ne.symm h.1, ih h.2]

theorem splitLines_joinLines (h : NewlineFree lines) (hne : lines ≠ []) :
    splitLines (joinLines lines) = lines := by
  induction lines with
  | nil => exact absurd rfl hne
  | cons l ls ih =>
    obtain ⟨hl, hls⟩ := newlineFree_cons.1 h
    by_cases hnil : ls = []
    · subst hnil
      exact splitLines_of_not_mem hl
    · rw [joinLines_cons l hnil, splitLines_append_newline _ hl, ih hls hnil]

theorem newlineFree_splitLines (t : Text) : NewlineFree (splitLines t) := by
  induction t with
  | nil => simp [splitLines, NewlineFree]
  | cons c t ih =>
    simp only [splitLines]
    by_cases hc : c = '\n'
    · rw [if_pos hc]
      exact newlineFree_cons.2 ⟨List.not_mem_nil, ih⟩
    · rw [if_neg hc]
      cases hs : splitLines t with
      | nil => exact absurd hs (splitLines_ne_nil t)
      | cons l ls =>
        obtain ⟨hl, hls⟩ := newlineFree_cons.1 (hs ▸ ih)
        refine newlineFree_cons.2 ⟨?_, hls⟩
        simp [Ne.symm hc, hl]

theorem newlineFree_fileLines (t : Text) : NewlineFree (fileLines t) := by
  intro l hl
  have hfree := newlineFree_splitLines t
  rcases List.mem_append.1 hl with hl | hl
  · obtain ⟨m, hm, rfl⟩ := List.mem_map.1 hl
    have hmem := hfree m (List.dropLast_subset _ hm)
    rw [dropCarriageReturn]
    split
    · exact fun h => hmem (List.dropLast_subset _ h)
    · exact hmem
  · split at hl
    · cases hl
    · next hlast =>
      rw [List.mem_singleton.1 hl]
      cases hs : (splitLines t).getLast? with
      | none => simp
      | some m => exact hfree m (List.mem_of_getLast? hs)

theorem byteSize_append_newline (l : Text) : byteSize (l ++ ['\n']) = l.byteSize + 1 :=
  byteSize_append l ['\n']

@[simp] theorem lineStart_zero (lines : List Text) : lineStart lines 0 = 0 := by
  simp [lineStart, byteSize]

@[simp] theorem lineStart_cons_succ (l : Text) (lines : List Text) (n : Nat) :
    lineStart (l :: lines) (n + 1) = l.byteSize + 1 + lineStart lines n := by
  rw [lineStart, List.take_succ_cons, List.flatMap_cons, byteSize_append, byteSize_append_newline,
    lineStart]

theorem lineStart_append (before after : List Text) :
    lineStart (before ++ after) before.length = byteSize (before.flatMap (· ++ ['\n'])) := by
  rw [lineStart, List.take_left]

theorem lineStart_succ (h : lines[n]? = some l) :
    lineStart lines (n + 1) = lineStart lines n + l.byteSize + 1 := by
  rw [lineStart, List.take_add_one, h, Option.toList_some, List.flatMap_append, byteSize_append,
    List.flatMap_singleton, byteSize_append_newline, ← Nat.add_assoc, lineStart]

theorem fallsOn_zero (hpos : pos ≤ l.byteSize) : FallsOn (l :: lines) pos 0 pos :=
  ⟨l, rfl, hpos, by simp⟩

theorem fallsOn_succ (h : FallsOn lines pos n offset) :
    FallsOn (l :: lines) (l.byteSize + 1 + pos) (n + 1) offset := by
  obtain ⟨m, hm, ho, rfl⟩ := h
  exact ⟨m, hm, ho, by simp [Nat.add_assoc]⟩

theorem FallsOn.eq {n' offset' : Nat} (h : FallsOn lines pos n offset)
    (h' : FallsOn lines pos n' offset') : n = n' ∧ offset = offset' := by
  obtain ⟨l, hl, ho, rfl⟩ := h
  obtain ⟨l', hl', ho', hpos⟩ := h'
  induction lines generalizing n n' with
  | nil => simp at hl
  | cons m ms ih =>
    cases n with
    | zero =>
      cases n' with
      | zero => simp at hpos; omega
      | succ n' => simp at hl hpos; subst hl; omega
    | succ n =>
      cases n' with
      | zero => simp at hl' hpos; subst hl'; omega
      | succ n' =>
        simp only [lineStart_cons_succ] at hpos
        have hrest := ih hl hl' (by omega)
        omega

end Text

end Highlight
