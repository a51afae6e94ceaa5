import Highlight.Pattern.Reader
import Mathlib.Data.List.Basic

/-!
# Patterns in a group

Tokens are read from the front of a text, and a token that could be read is read in the same
way if the text goes on with a closing bracket (`token?_append`). Only a class or a count at
the very end of a text could go on there, and both are unfinished then. So what a text reads as
by itself, it reads as in a group (`read?_closing`), and the pattern that is made of it behind a
caret is the anchored one (`ofText?_of_read?`).
-/

namespace Highlight.Pattern.Reader

variable {n : Nat} {c : Char} {t rest u : Text} {r : Char × Char} {ranges : List (Char × Char)}

theorem classChar?_append (h : classChar? t = some (c, rest)) (u : Text) :
    classChar? (t ++ u) = some (c, rest ++ u) := by
  unfold classChar? at h
  split at h
  · next d t =>
    split at h
    · next hd =>
      cases h
      simp only [List.cons_append, classChar?, if_pos hd]
    · cases h
  · next d t hnot =>
    split at h
    · cases h
    · next hd =>
      cases h
      obtain ⟨-, hback⟩ := not_or.1 hd
      rw [List.cons_append, classChar?, if_neg hd]
      exact fun _ _ hc _ => hback hc
  · cases h

theorem length_lt_of_classChar? (h : classChar? t = some (c, rest)) : rest.length < t.length := by
  unfold classChar? at h
  split at h
  · split at h
    · cases h
      simp only [List.length_cons]
      omega
    · cases h
  · split at h
    · cases h
    · cases h
      exact Nat.lt_succ_self _
  · cases h

theorem classRange?_append (h : classRange? t = some (r, rest)) (hne : rest ≠ [])
    (hhyphen : rest ≠ ['-']) (u : Text) : classRange? (t ++ u) = some (r, rest ++ u) := by
  obtain ⟨⟨a, s⟩, ha, h⟩ := Option.bind_eq_some_iff.1 h
  rw [classRange?, classChar?_append ha]
  simp only [bind, Option.bind_some]
  dsimp only at h
  split at h
  · next b v =>
    split at h
    · next hb =>
      cases h
      simp only [List.cons_append, if_pos hb]
      rfl
    · next hb =>
      obtain ⟨⟨b', s⟩, hb', h⟩ := Option.bind_eq_some_iff.1 h
      simp only [List.cons_append, if_neg hb]
      rw [← List.cons_append, classChar?_append hb', Option.bind_some]
      dsimp only at h ⊢
      split at h
      · next hle =>
        cases h
        rw [if_pos hle]
        rfl
      · cases h
  · next hnot =>
    cases h
    split
    · next b v hb =>
      -- Only what follows a hyphen at the end would be taken for the end of a range.
      obtain ⟨d, s, rfl⟩ := List.exists_cons_of_ne_nil hne
      obtain ⟨rfl, hs⟩ := List.cons.inj hb
      cases s with
      | nil => exact absurd rfl hhyphen
      | cons d s => exact absurd rfl (hnot d s)
    · rfl

theorem length_lt_of_classRange? (h : classRange? t = some (r, rest)) : rest.length < t.length := by
  obtain ⟨⟨a, s⟩, ha, h⟩ := Option.bind_eq_some_iff.1 h
  have hs := length_lt_of_classChar? ha
  dsimp only at h
  split at h
  · split at h
    · cases h
      exact hs
    · obtain ⟨⟨b, v⟩, hb, h⟩ := Option.bind_eq_some_iff.1 h
      have hv := length_lt_of_classChar? hb
      dsimp only at h
      split at h
      · cases h
        simp only [List.length_cons] at hs hv
        omega
      · cases h
  · cases h
    exact hs

theorem classRanges?_nil (n : Nat) : classRanges? n [] = none := by
  cases n with
  | zero => rfl
  | succ n => rfl

theorem isClassOperator_append (ht : 1 < t.length) (u : Text) :
    isClassOperator (t ++ u) = isClassOperator t := by
  match t, ht with
  | c :: d :: t, _ => rfl

theorem classRanges?_hyphen (n : Nat) : classRanges? n ['-'] = none := by
  cases n with
  | zero => rfl
  | succ n =>
    change (classRanges? n []).bind _ = none
    rw [classRanges?_nil, Option.bind_none]

theorem classRanges?_succ (n : Nat) (ht : t.head? ≠ some ']') : classRanges? (n + 1) t =
    if isClassOperator t then none
    else (classRange? t).bind fun r => (classRanges? n r.2).map fun rs => (r.1 :: rs.1, rs.2) := by
  rw [classRanges?]
  · simp only [Option.map_eq_bind]
    rfl
  · rintro u rfl
    exact ht rfl

theorem classRanges?_append {m : Nat} (h : classRanges? n t = some (ranges, rest)) (hm : n ≤ m)
    (u : Text) : classRanges? m (t ++ u) = some (ranges, rest ++ u) := by
  induction n generalizing t ranges m with
  | zero => cases h
  | succ n ih =>
    obtain ⟨m, rfl⟩ : ∃ k, m = k + 1 := ⟨m - 1, by omega⟩
    by_cases ht : t.head? = some ']'
    · obtain ⟨t, rfl⟩ := List.head?_eq_some_iff.1 ht
      cases h
      rfl
    · rw [classRanges?_succ n ht] at h
      split at h
      · cases h
      · next hop =>
        obtain ⟨⟨r, s⟩, hr, h⟩ := Option.bind_eq_some_iff.1 h
        obtain ⟨⟨rs, v⟩, hrs, heq⟩ := Option.map_eq_some_iff.1 h
        cases heq
        have hne : s ≠ [] := by
          rintro rfl
          cases (classRanges?_nil n).symm.trans hrs
        have hhyphen : s ≠ ['-'] := by
          rintro rfl
          cases (classRanges?_hyphen n).symm.trans hrs
        have hlength : 1 < t.length := by
          have hlt := length_lt_of_classRange? hr
          have hpos := List.length_pos_iff.2 hne
          omega
        have hhead : (t ++ u).head? = t.head? :=
          List.head?_append_of_ne_nil t (List.length_pos_iff.1 (Nat.zero_lt_of_lt hlength))
        rw [classRanges?_succ m (by rwa [hhead]), isClassOperator_append hlength, if_neg hop,
          classRange?_append hr hne hhyphen, Option.bind_some, ih hrs (by omega), Option.map_some]

theorem classBody?_append {negated : Bool} {k : CharClass}
    (h : classBody? negated t = some (k, rest)) (u : Text) :
    classBody? negated (t ++ u) = some (k, rest ++ u) := by
  unfold classBody? at h ⊢
  split at h
  · next hranges =>
    cases h
    rw [classRanges?_append hranges (by rw [List.length_append]; omega)]
  · cases h

theorem charClass?_append {k : CharClass} (h : charClass? t = some (k, rest)) (u : Text) :
    charClass? (t ++ u) = some (k, rest ++ u) := by
  unfold charClass? at h
  split at h
  · exact classBody?_append h u
  · next hnot =>
    rw [charClass?]
    · exact classBody?_append h u
    · intro v heq
      obtain ⟨rfl, -⟩ | ⟨s, rfl, -⟩ := List.append_eq_cons_iff.1 heq
      · cases h
      · exact hnot s rfl

theorem count?_append (h : count? t = some (n, rest)) (hne : rest ≠ []) (u : Text) :
    count? (t ++ u) = some (n, rest ++ u) := by
  unfold count? at h ⊢
  dsimp only at h
  split at h
  · cases h
  · next hcount =>
    cases h
    have htake : (t ++ u).takeWhile Char.isDigit = t.takeWhile Char.isDigit := by
      rw [List.takeWhile_append, if_neg]
      intro hlength
      have heq := List.takeWhile_append_dropWhile (p := Char.isDigit) (l := t)
      have hsum := congrArg List.length heq
      rw [List.length_append, hlength] at hsum
      exact hne (List.eq_nil_of_length_eq_zero (by omega))
    have hdrop : (t ++ u).dropWhile Char.isDigit = t.dropWhile Char.isDigit ++ u := by
      rw [List.dropWhile_append, if_neg]
      rwa [List.isEmpty_iff]
    rw [htake, hdrop]
    dsimp only
    rw [if_neg hcount]

theorem upperBound?_append {low : Nat} {f : Pattern → Pattern}
    (h : upperBound? low t = some (f, rest)) (u : Text) :
    upperBound? low (t ++ u) = some (f, rest ++ u) := by
  unfold upperBound? at h
  split at h
  · cases h
    rfl
  · next hnot =>
    obtain ⟨⟨high, s⟩, hhigh, h⟩ := Option.bind_eq_some_iff.1 h
    dsimp only at h
    split at h
    · split at h
      · next hle =>
        cases h
        rw [upperBound?, count?_append hhigh (List.cons_ne_nil _ _)]
        · simp only [bind, Option.bind_some, List.cons_append, if_pos hle]
          rfl
        · intro v heq
          obtain ⟨rfl, -⟩ | ⟨s, rfl, -⟩ := List.append_eq_cons_iff.1 heq
          · cases hhigh
          · exact hnot s rfl
      · cases h
    · cases h

theorem bounds?_append {f : Pattern → Pattern} (h : bounds? t = some (f, rest)) (u : Text) :
    bounds? (t ++ u) = some (f, rest ++ u) := by
  obtain ⟨⟨low, s⟩, hlow, h⟩ := Option.bind_eq_some_iff.1 h
  dsimp only at h
  split at h
  · cases h
    rw [bounds?, count?_append hlow (List.cons_ne_nil _ _)]
    rfl
  · rw [bounds?, count?_append hlow (List.cons_ne_nil _ _)]
    exact upperBound?_append h u
  · cases h

theorem isLazy_append_closing (t : Text) : isLazy (t ++ [')']) = isLazy t := by
  cases t with
  | nil => rfl
  | cons c t => rfl

theorem repetition?_append {f : Pattern → Pattern} {k : Token}
    (h : repetition? f t = some (k, rest)) :
    repetition? f (t ++ [')']) = some (k, rest ++ [')']) := by
  unfold repetition? at h ⊢
  split at h
  · cases h
  · next hlazy =>
    cases h
    rw [isLazy_append_closing, if_neg hlazy]

theorem groupMark?_append {k : Token} (h : groupMark? t = some (k, rest)) :
    groupMark? (t ++ [')']) = some (k, rest ++ [')']) := by
  unfold groupMark? at h
  split at h
  · cases h
    rfl
  · cases h
  · next hmarked hquestion =>
    cases h
    have hhead {v : Text} (heq : t ++ [')'] = '?' :: v) : False := by
      obtain ⟨-, hv⟩ | ⟨s, rfl, -⟩ := List.append_eq_cons_iff.1 heq
      · cases hv
      · exact hquestion s rfl
    rw [groupMark?]
    · exact fun v => hhead
    · exact fun v => hhead

theorem token?_append {k : Token} (h : token? c t = some (k, rest)) :
    token? c (t ++ [')']) = some (k, rest ++ [')']) := by
  unfold token? at h
  split at h
  · cases h
    rfl
  · exact groupMark?_append h
  · cases h
    rfl
  · obtain ⟨⟨s, v⟩, hs, heq⟩ := Option.map_eq_some_iff.1 h
    cases heq
    simp only [token?, charClass?_append hs, Option.map_some]
  · exact repetition?_append h
  · exact repetition?_append h
  · exact repetition?_append h
  · obtain ⟨⟨f, v⟩, hf, h⟩ := Option.bind_eq_some_iff.1 h
    simp only [token?, bounds?_append hf, Option.bind_some]
    exact repetition?_append h
  · cases h
    rfl
  · cases h
    rfl
  · cases h
    rfl
  · split at h
    · cases h
    · next d s =>
      split at h
      · next hd =>
        cases h
        simp only [token?, List.cons_append, if_pos hd]
      · cases h
  · cases h
    simp only [token?]

variable {level level' : Level} {outer outer' : List Level} {q : Pattern}

theorem Token.levels?_append {k : Token} (h : k.levels? level outer = some (level', outer'))
    (base : Level) : k.levels? level (outer ++ [base]) = some (level', outer' ++ [base]) := by
  cases k with
  | bar | opening | atom p =>
    cases h
    rfl
  | closing =>
    cases outer with
    | nil => cases h
    | cons parent outer =>
      cases h
      rfl
  | repetition f =>
    obtain ⟨l, hl, heq⟩ := Option.map_eq_some_iff.1 h
    cases heq
    simp only [levels?, hl, Option.map_some]

theorem read?_closing {m : Nat} (h : read? n level outer t = some q) (hm : n < m) (base : Level) :
    read? m level (outer ++ [base]) (t ++ [')']) = some (base.push q).close := by
  fun_induction read? n level outer t generalizing m with
  | case1 n level =>
    cases h
    obtain ⟨m, rfl⟩ : ∃ k, m = k + 1 := ⟨m - 1, by omega⟩
    change read? m (base.push level.close) [] [] = _
    rw [read?]
  | case2 => cases h
  | case3 => cases h
  | case4 n level outer c t ih =>
    obtain ⟨m, rfl⟩ : ∃ k, m = k + 1 := ⟨m - 1, by omega⟩
    obtain ⟨⟨k, s⟩, hk, h⟩ := Option.bind_eq_some_iff.1 h
    obtain ⟨⟨level', outer'⟩, hlevel, h⟩ := Option.bind_eq_some_iff.1 h
    rw [List.cons_append, read?, token?_append hk]
    simp only [bind, Option.bind_some, Token.levels?_append hlevel]
    exact ih _ _ _ h (by omega)

end Highlight.Pattern.Reader

namespace Highlight.Pattern

theorem read?_anchored {w : Text} {q : Pattern} (h : Reader.read? w.length {} [] w = some q) :
    Reader.read? (w.length + 5) {} [] (['^', '(', '?', ':'] ++ w ++ [')']) = some (anchored q) :=
  -- After the caret and the mark of the group the base level holds the anchor.
  Reader.read?_closing (m := w.length + 3) h (by omega) { items := [atStart] }

theorem ofText?_of_read? {w : Text} {q : Pattern} (h : Reader.read? w.length {} [] w = some q)
    (hcaret : w.head? ≠ some '^') : ofText? w = some (anchored q) := by
  have hlength : (['^', '(', '?', ':'] ++ w ++ [')']).length = w.length + 5 := by
    simp only [List.length_append, List.length_cons, List.length_nil]
    omega
  simp only [ofText?, if_neg hcaret]
  rw [hlength]
  exact read?_anchored h

end Highlight.Pattern
