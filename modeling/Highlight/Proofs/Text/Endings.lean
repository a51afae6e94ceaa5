import Highlight.Proofs.Text.Joined

/-!
# Lines of a file by their endings

A grammar of files, line by line: what ends a line, and what the line is without it. The lines of
a file are those of the grammar and no others (`linesOf_iff`).
-/

namespace Highlight

namespace Text

/-- The lines of a file. A carriage return belongs to the end of its line only if a newline comes
directly behind it. -/
inductive LinesOf : Text → List Text → Prop
  | nil : LinesOf [] []
  | unfinished (l : Text) : l ≠ [] → '\n' ∉ l → LinesOf l [l]
  | newline (l : Text) {t : Text} {lines : List Text} : '\n' ∉ l → l.getLast? ≠ some '\r' →
      LinesOf t lines → LinesOf (l ++ '\n' :: t) (l :: lines)
  | carriageReturn (l : Text) {t : Text} {lines : List Text} : '\n' ∉ l → LinesOf t lines →
      LinesOf (l ++ '\r' :: '\n' :: t) (l :: lines)

variable {l t : Text} {lines : List Text}

theorem fileLines_of_not_mem (h : '\n' ∉ l) : fileLines l = if l = [] then [] else [l] := by
  rw [fileLines, splitLines_of_not_mem h]
  rfl

theorem fileLines_append_newline (h : '\n' ∉ l) (t : Text) :
    fileLines (l ++ '\n' :: t) = dropCarriageReturn l :: fileLines t := by
  have hne := splitLines_ne_nil t
  rw [fileLines, splitLines_append_newline t h, List.dropLast_cons_of_ne_nil hne,
    List.getLast?_cons_of_ne_nil hne]
  rfl

theorem dropCarriageReturn_concat (l : Text) : dropCarriageReturn (l ++ ['\r']) = l := by
  rw [dropCarriageReturn, if_pos List.getLast?_concat, List.dropLast_concat]

theorem linesOf_append_newline (hl : '\n' ∉ l) (ht : LinesOf t lines) :
    LinesOf (l ++ '\n' :: t) (dropCarriageReturn l :: lines) := by
  by_cases hlast : l.getLast? = some '\r'
  · obtain ⟨front, rfl⟩ := List.getLast?_eq_some_iff.1 hlast
    have hfront : '\n' ∉ front := fun h => hl (List.mem_append_left _ h)
    rw [dropCarriageReturn_concat, List.append_assoc]
    exact .carriageReturn front hfront ht
  · rw [dropCarriageReturn, if_neg hlast]
    exact .newline l hl hlast ht

theorem linesOf_fileLines (t : Text) : LinesOf t (fileLines t) := by
  induction hn : t.length using Nat.strongRecOn generalizing t with
  | ind n ih =>
    subst hn
    by_cases h : '\n' ∈ t
    · obtain ⟨l, rest, rfl, hl⟩ := List.eq_append_cons_of_mem h
      have hshorter : rest.length < (l ++ '\n' :: rest).length := by
        rw [List.length_append, List.length_cons]
        omega
      rw [fileLines_append_newline hl]
      exact linesOf_append_newline hl (ih _ hshorter rest rfl)
    · rw [fileLines_of_not_mem h]
      split
      · next hnil =>
        rw [hnil]
        exact .nil
      · next hnil => exact .unfinished t hnil h

theorem LinesOf.eq_fileLines (h : LinesOf t lines) : lines = fileLines t := by
  induction h with
  | nil => rfl
  | unfinished l hne hl => rw [fileLines_of_not_mem hl, if_neg hne]
  | newline l hl hlast _ ih =>
    rw [fileLines_append_newline hl, dropCarriageReturn, if_neg hlast, ih]
  | @carriageReturn l t lines hl _ ih =>
    have hreturn : '\n' ∉ l ++ ['\r'] := by simp [hl]
    have hall := fileLines_append_newline hreturn t
    rw [List.append_assoc, dropCarriageReturn_concat] at hall
    rw [ih]
    exact hall.symm

theorem linesOf_iff : LinesOf t lines ↔ lines = fileLines t := by
  refine ⟨LinesOf.eq_fileLines, ?_⟩
  rintro rfl
  exact linesOf_fileLines t

end Text

end Highlight
