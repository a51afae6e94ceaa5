/-!
# Text and its UTF-8 offsets

A text is the list of its characters. Positions are counted in bytes of the UTF-8
encoding, so an offset is usable only where it falls between two characters;
`splitAt?` is the one way to cut at an offset, and it refuses all others. Documents
are texts too: `splitLines` and `joinLines` pass between a document and its lines.
-/

namespace Highlight

abbrev Text := List Char

namespace Text

def byteSize : Text → Nat
  | [] => 0
  | c :: t => c.utf8Size + byteSize t

/-- The two parts of a text at a byte offset, if the offset lies between characters. -/
def splitAt? : Nat → Text → Option (Text × Text)
  | 0, t => some ([], t)
  | _ + 1, [] => none
  | n + 1, c :: t =>
    if c.utf8Size ≤ n + 1 then
      (splitAt? (n + 1 - c.utf8Size) t).map fun parts => (c :: parts.1, parts.2)
    else none

def IsBoundary (n : Nat) (t : Text) : Prop := (splitAt? n t).isSome

instance (n : Nat) (t : Text) : Decidable (IsBoundary n t) :=
  inferInstanceAs (Decidable ((splitAt? n t).isSome = true))

def slice? (start stop : Nat) (t : Text) : Option Text :=
  if start ≤ stop then do
    let (_, rest) ← splitAt? start t
    let (piece, _) ← splitAt? (stop - start) rest
    return piece
  else none

def insertAt? (t : Text) (n : Nat) (piece : Text) : Option Text :=
  (splitAt? n t).map fun parts => parts.1 ++ piece ++ parts.2

def cut? (start stop : Nat) (t : Text) : Option (Text × Text) :=
  if start ≤ stop then do
    let (before, rest) ← splitAt? start t
    let (piece, after) ← splitAt? (stop - start) rest
    return (piece, before ++ after)
  else none

def after? : Text → Text → Option Text
  | t, [] => some t
  | [], _ :: _ => none
  | c :: t, m :: ms => if m = c then after? t ms else none

/-- The order of code points, which is that of the bytes. -/
def le : Text → Text → Bool
  | [], _ => true
  | _ :: _, [] => false
  | c :: t, d :: u => c.val < d.val || c == d && le t u

def insertSorted (t : Text) : List Text → List Text
  | [] => [t]
  | u :: us => if le t u then t :: u :: us else u :: insertSorted t us

def sort (ts : List Text) : List Text := ts.foldr insertSorted []

def splitLines : Text → List Text
  | [] => [[]]
  | c :: t =>
    if c = '\n' then [] :: splitLines t
    else match splitLines t with
      | [] => [[c]]
      | l :: ls => (c :: l) :: ls

def joinLines : List Text → Text
  | [] => []
  | [l] => l
  | l :: m :: ls => l ++ '\n' :: joinLines (m :: ls)

def dropCarriageReturn (l : Text) : Text :=
  if l.getLast? = some '\r' then l.dropLast else l

/-- The lines of a file. A newline ends a line, with the carriage return directly before
it, and the last line may do without one; an unfinished last line keeps its carriage
return. -/
def fileLines (t : Text) : List Text :=
  let ls := splitLines t
  let unfinished := ls.getLast?.getD []
  ls.dropLast.map dropCarriageReturn ++ (if unfinished = [] then [] else [unfinished])

theorem byteSize_append (t u : Text) : byteSize (t ++ u) = byteSize t + byteSize u := by
  induction t with
  | nil => simp [byteSize]
  | cons c t ih => simp [byteSize, ih, Nat.add_assoc]

theorem utf8Size_pos (c : Char) : 0 < c.utf8Size := Char.utf8Size_pos c

theorem splitAt?_eq_some_iff {n : Nat} {t l r : Text} :
    splitAt? n t = some (l, r) ↔ t = l ++ r ∧ n = byteSize l := by
  induction t generalizing n l with
  | nil =>
    cases n with
    | zero =>
      cases l <;> simp [splitAt?, byteSize]
    | succ n =>
      simp only [splitAt?, reduceCtorEq, false_iff, not_and]
      intro h
      cases l <;> simp_all [byteSize]
  | cons c t ih =>
    have hc := utf8Size_pos c
    cases n with
    | zero =>
      simp only [splitAt?, Option.some.injEq, Prod.mk.injEq]
      constructor
      · rintro ⟨rfl, rfl⟩
        simp [byteSize]
      · rintro ⟨h, hn⟩
        cases l with
        | nil => simpa using h
        | cons d l =>
          have := utf8Size_pos d
          simp only [byteSize] at hn
          omega
    | succ n =>
      cases l with
      | nil => simp [splitAt?, byteSize]
      | cons d l =>
        simp only [splitAt?, byteSize, List.cons_append, List.cons.injEq]
        constructor
        · intro h
          split at h
          · obtain ⟨⟨l', r'⟩, hs, he⟩ := Option.map_eq_some_iff.1 h
            simp only [Prod.mk.injEq, List.cons.injEq] at he
            obtain ⟨⟨rfl, rfl⟩, rfl⟩ := he
            obtain ⟨ht, hn⟩ := ih.1 hs
            exact ⟨⟨rfl, ht⟩, by omega⟩
          · cases h
        · rintro ⟨⟨rfl, rfl⟩, hn⟩
          have hle : c.utf8Size ≤ n + 1 := by omega
          have hs := (ih (n := n + 1 - c.utf8Size) (l := l)).2 ⟨rfl, by omega⟩
          simp [hle, hs]

theorem splitAt?_byteSize (l r : Text) : splitAt? (byteSize l) (l ++ r) = some (l, r) :=
  splitAt?_eq_some_iff.2 ⟨rfl, rfl⟩

theorem isBoundary_iff {n : Nat} {t : Text} :
    IsBoundary n t ↔ ∃ l r, t = l ++ r ∧ n = byteSize l := by
  constructor
  · intro h
    obtain ⟨⟨l, r⟩, hs⟩ := Option.isSome_iff_exists.1 h
    exact ⟨l, r, splitAt?_eq_some_iff.1 hs⟩
  · rintro ⟨l, r, rfl, rfl⟩
    rw [IsBoundary, splitAt?_byteSize]
    rfl

theorem isBoundary_byteSize (t : Text) : IsBoundary (byteSize t) t :=
  isBoundary_iff.2 ⟨t, [], (List.append_nil t).symm, rfl⟩

theorem IsBoundary.le_byteSize {n : Nat} {t : Text} (h : IsBoundary n t) : n ≤ byteSize t := by
  obtain ⟨l, r, rfl, rfl⟩ := isBoundary_iff.1 h
  rw [byteSize_append]
  exact Nat.le_add_right _ _

theorem byteSize_pos {t : Text} (h : t ≠ []) : 0 < byteSize t := by
  cases t with
  | nil => exact absurd rfl h
  | cons c t => exact Nat.lt_of_lt_of_le (utf8Size_pos c) (Nat.le_add_right _ _)

theorem append_of_byteSize_le {l r l' r' : Text} (h : l ++ r = l' ++ r')
    (hn : byteSize l ≤ byteSize l') : ∃ m, l' = l ++ m ∧ r = m ++ r' := by
  rcases List.append_eq_append_iff.1 h with ⟨m, hl, hr⟩ | ⟨m, hl, hr⟩
  · exact ⟨m, hl, hr⟩
  · have hm : m = [] := by
      by_cases hm : m = []
      · exact hm
      · have hp := byteSize_pos hm
        rw [hl, byteSize_append] at hn
        omega
    subst hm
    exact ⟨[], by simpa using hl.symm, by simpa using hr.symm⟩

theorem exists_append_of_boundaries {t : Text} {start stop : Nat} (hstart : t.IsBoundary start)
    (hstop : t.IsBoundary stop) (h : start ≤ stop) :
    ∃ l m r, t = l ++ (m ++ r) ∧ start = l.byteSize ∧ stop = l.byteSize + m.byteSize := by
  obtain ⟨l, r, ht, hl⟩ := isBoundary_iff.1 hstart
  obtain ⟨l', r', ht', hl'⟩ := isBoundary_iff.1 hstop
  obtain ⟨m, rfl, rfl⟩ := append_of_byteSize_le (ht.symm.trans ht') (by omega)
  exact ⟨l, m, r', ht, hl, by rw [hl', byteSize_append]⟩

theorem slice?_append (t u v : Text) :
    (t ++ (u ++ v)).slice? t.byteSize (t.byteSize + u.byteSize) = some u := by
  rw [slice?, if_pos (Nat.le_add_right _ _), splitAt?_byteSize, Nat.add_sub_cancel_left]
  simp only [Option.bind_eq_bind, Option.bind_some, splitAt?_byteSize]
  rfl

theorem isSome_slice?_iff {t : Text} {start stop : Nat} :
    (t.slice? start stop).isSome ↔ start ≤ stop ∧ t.IsBoundary start ∧ t.IsBoundary stop := by
  constructor
  · intro h
    obtain ⟨piece, h⟩ := Option.isSome_iff_exists.1 h
    unfold slice? at h
    split at h
    · next hle =>
      obtain ⟨⟨l, rest⟩, hl, h⟩ := Option.bind_eq_some_iff.1 h
      obtain ⟨⟨m, r⟩, hm, -⟩ := Option.bind_eq_some_iff.1 h
      obtain ⟨rfl, rfl⟩ := splitAt?_eq_some_iff.1 hl
      obtain ⟨rfl, hm⟩ := splitAt?_eq_some_iff.1 hm
      refine ⟨hle, isBoundary_iff.2 ⟨l, m ++ r, rfl, rfl⟩, isBoundary_iff.2 ⟨l ++ m, r, ?_, ?_⟩⟩
      · rw [List.append_assoc]
      · rw [byteSize_append]
        omega
    · cases h
  · rintro ⟨hle, hstart, hstop⟩
    obtain ⟨l, m, r, rfl, rfl, rfl⟩ := exists_append_of_boundaries hstart hstop hle
    rw [slice?_append]
    rfl

theorem after?_eq_some_iff {t m r : Text} : t.after? m = some r ↔ t = m ++ r := by
  induction m generalizing t with
  | nil => simp [after?]
  | cons c m ih =>
    cases t with
    | nil => simp [after?]
    | cons d t =>
      by_cases h : c = d
      · simp [after?, h, ih]
      · simp [after?, h, Ne.symm h]

theorem splitLines_ne_nil (t : Text) : splitLines t ≠ [] := by
  cases t with
  | nil => simp [splitLines]
  | cons c t =>
    simp only [splitLines]
    split
    · simp
    · split <;> simp

theorem length_splitLines (t : Text) : (splitLines t).length = t.count '\n' + 1 := by
  induction t with
  | nil => rfl
  | cons c t ih =>
    simp only [splitLines]
    by_cases h : c = '\n'
    · rw [if_pos h, List.length_cons, ih, h, List.count_cons_self]
    · rw [if_neg h, List.count_cons_of_ne h, ← ih]
      cases hs : splitLines t with
      | nil => exact absurd hs (splitLines_ne_nil t)
      | cons l ls => rfl

theorem joinLines_splitLines (t : Text) : joinLines (splitLines t) = t := by
  induction t with
  | nil => rfl
  | cons c t ih =>
    simp only [splitLines]
    split
    · next h =>
      subst h
      cases hs : splitLines t with
      | nil => exact absurd hs (splitLines_ne_nil t)
      | cons l ls =>
        rw [hs] at ih
        simp [joinLines, ih]
    · cases hs : splitLines t with
      | nil => exact absurd hs (splitLines_ne_nil t)
      | cons l ls =>
        rw [hs] at ih
        cases ls with
        | nil => simpa [joinLines] using ih
        | cons m ls => simpa [joinLines] using ih

end Text

end Highlight
