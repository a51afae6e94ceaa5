/-!
# Line edits

A line edit replaces `removed` lines from `start` on by `inserted` lines. The start and
the removed lines are counted in the document before the edit, the inserted ones in the
document after it.

The numbers of an edit are natural numbers, and so are the sums where its lines stop. Words of
64 bits have the same sums as long as these stay below `2 ^ 64`, which is far behind the last line
of any document.
-/

namespace Highlight

structure LineEdit where
  start : Nat
  removed : Nat
  inserted : Nat
  deriving DecidableEq, Repr, Inhabited

inductive EditKind
  | change
  | insert
  | delete
  deriving DecidableEq, Repr

namespace LineEdit

def single (line : Nat) : LineEdit := ⟨line, 1, 1⟩

def kind (e : LineEdit) : EditKind :=
  if e.inserted = e.removed then .change
  else if e.removed < e.inserted then .insert
  else .delete

def oldStop (e : LineEdit) : Nat := e.start + e.removed

def newStop (e : LineEdit) : Nat := e.start + e.inserted

def splice {α : Type} (e : LineEdit) (lines inserted : List α) : List α :=
  lines.take e.start ++ inserted ++ lines.drop e.oldStop

def rangeText (start stop : Nat) : String := toString start ++ ".." ++ toString stop

def oldText (e : LineEdit) : String := rangeText e.start e.oldStop

def newText (e : LineEdit) : String := rangeText e.start e.newStop

def text (e : LineEdit) : String :=
  "EditRange \x7b start: " ++ toString e.start ++ ", removed: " ++ toString e.removed ++
    ", inserted: " ++ toString e.inserted ++ " \x7d"

theorem kind_eq_change_iff {e : LineEdit} : e.kind = .change ↔ e.inserted = e.removed := by
  unfold kind
  split
  · simp_all
  · split <;> simp_all

/-- The removed lines exist, and as many lines are inserted as the edit says. -/
def Fits {α : Type} (e : LineEdit) (lines inserted : List α) : Prop :=
  e.oldStop ≤ lines.length ∧ inserted.length = e.inserted

instance {α : Type} (e : LineEdit) (lines inserted : List α) : Decidable (e.Fits lines inserted) :=
  inferInstanceAs (Decidable (_ ∧ _))

variable {α : Type} {e : LineEdit} {lines inserted : List α}

theorem Fits.length_take_start (h : e.Fits lines inserted) :
    (lines.take e.start).length = e.start := by
  have ho := h.1
  rw [oldStop] at ho
  rw [List.length_take]
  omega

theorem Fits.take_start_splice (h : e.Fits lines inserted) :
    (e.splice lines inserted).take e.start = lines.take e.start := by
  rw [splice, List.append_assoc]
  exact List.take_left' h.length_take_start

theorem Fits.take_newStop_splice (h : e.Fits lines inserted) :
    (e.splice lines inserted).take e.newStop = lines.take e.start ++ inserted := by
  refine List.take_left' ?_
  rw [List.length_append, h.length_take_start, h.2, newStop]

theorem Fits.drop_newStop_splice (h : e.Fits lines inserted) :
    (e.splice lines inserted).drop e.newStop = lines.drop e.oldStop := by
  refine List.drop_left' ?_
  rw [List.length_append, h.length_take_start, h.2, newStop]

theorem Fits.inserted_splice (h : e.Fits lines inserted) :
    ((e.splice lines inserted).drop e.start).take e.inserted = inserted := by
  rw [splice, List.append_assoc, List.drop_left' h.length_take_start]
  exact List.take_left' h.2

theorem Fits.length_splice (h : e.Fits lines inserted) :
    (e.splice lines inserted).length = e.newStop + (lines.length - e.oldStop) := by
  rw [splice, List.length_append, List.length_append, h.length_take_start, h.2, List.length_drop,
    newStop]

end LineEdit

end Highlight
