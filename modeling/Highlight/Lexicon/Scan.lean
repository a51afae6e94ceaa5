import Highlight.Lexicon

/-!
# Scanning a line

Every step takes at least one character (`step_length_pos`), so repeating it cuts the
whole line into lexemes. A line that starts inside a region first gives the rest of that
region; if the region does not end, it takes the line and stays open.
-/

namespace Highlight

theorem findClosing_ge {closing : Text} {escape : Option Char} {limit : Option Nat} {t : Text}
    {n : Nat} (h : findClosing closing escape limit t = some n) : closing.length ≤ n := by
  fun_induction findClosing closing escape limit t generalizing n with
  | case1 => cases h
  | case2 => simp_all
  | case3 => cases h
  | case4 => simp_all
  | case5 => cases h
  | case6 _ _ _ _ _ _ _ ih =>
    obtain ⟨m, hm, rfl⟩ := Option.map_eq_some_iff.1 h
    have := ih hm
    omega
  | case7 _ _ _ _ _ _ _ ih =>
    obtain ⟨m, hm, rfl⟩ := Option.map_eq_some_iff.1 h
    have := ih hm
    omega

theorem wordRun_ne_nil {c : Char} {t : Text} (h : isWordChar c) : wordRun (c :: t) ≠ [] := by
  simp [wordRun, h]

theorem isWordChar_of_isDigit {c : Char} (h : c.isDigit) : isWordChar c := by
  simp [isWordChar, Char.isAlphanum, h]

namespace Step

theorem toLineEnd?_pos {rules : List Rule} {t : Text} {s : Step} (ht : t ≠ [])
    (h : toLineEnd? rules t = some s) : 0 < s.length := by
  obtain ⟨r, _, hr⟩ := List.exists_of_findSome?_eq_some h
  cases r <;> simp at hr
  obtain ⟨_, rfl⟩ := hr
  exact List.length_pos_iff.2 ht

theorem region?_pos {rules : List Rule} {t : Text} {s : Step} (ht : t ≠ [])
    (h : region? rules t = some s) : 0 < s.length := by
  obtain ⟨r, _, hr⟩ := List.exists_of_findSome?_eq_some h
  cases r with
  | region r =>
    simp only at hr
    split at hr
    · cases hr
    · split at hr
      · cases hr
        have := List.length_pos_iff.2 r.opening_ne_nil
        simp only
        omega
      · cases hr
        exact List.length_pos_iff.2 ht
  | _ => cases hr

theorem delimitedLength_pos {d : Delimited} {t : Text} {n : Nat} (ht : t ≠ [])
    (h : d.length? t = some n) : 0 < n := by
  unfold Delimited.length? at h
  split at h
  · cases h
  · split at h
    · next hf =>
      have hc := findClosing_ge hf
      cases h
      rcases d.has_mark with ho | ho
      · have := List.length_pos_iff.2 ho
        omega
      · have := List.length_pos_iff.2 ho
        omega
    · split at h
      · cases h
      · cases h
        exact List.length_pos_iff.2 ht

theorem delimited?_pos {rules : List Rule} {t : Text} {s : Step} (ht : t ≠ [])
    (h : delimited? rules t = some s) : 0 < s.length := by
  obtain ⟨r, _, hr⟩ := List.exists_of_findSome?_eq_some h
  cases r with
  | delimited d =>
    obtain ⟨n, hn, rfl⟩ := Option.map_eq_some_iff.1 hr
    exact delimitedLength_pos ht hn
  | _ => cases hr

theorem number?_pos {rules : List Rule} {previous : Option Char} {t : Text} {s : Step}
    (h : number? rules previous t = some s) : 0 < s.length := by
  unfold number? at h
  split at h
  · obtain ⟨r, _, hr⟩ := List.exists_of_findSome?_eq_some h
    cases r with
    | numbers m =>
      obtain ⟨n, hn, rfl⟩ := Option.map_eq_some_iff.1 hr
      have := (Matcher.reach?_bounds hn).1
      dsimp only
      split <;> dsimp only <;> omega
    | _ => cases hr
  · cases h

theorem sigilWord?_pos {rules : List Rule} {t : Text} {s : Step}
    (h : sigilWord? rules t = some s) : 0 < s.length := by
  obtain ⟨r, _, hr⟩ := List.exists_of_findSome?_eq_some h
  cases r with
  | sigilWord sigil c =>
    simp only at hr
    split at hr
    · cases hr
    · split at hr
      · cases hr
      · cases hr
        dsimp only
        omega
  | _ => cases hr

theorem word?_pos {lexicon : Lexicon} {t : Text} {s : Step} (h : word? lexicon t = some s) :
    0 < s.length := by
  unfold word? at h
  simp only at h
  split at h
  · cases h
  · next hw =>
    cases h
    exact List.length_pos_iff.2 hw

theorem other_pos (t : Text) : 0 < (other t).length := by
  unfold other
  split
  · next h =>
    cases t with
    | nil => cases h
    | cons c t => exact List.length_pos_iff.2 (wordRun_ne_nil (isWordChar_of_isDigit h))
  · exact Nat.one_pos

end Step

namespace Lexicon

theorem step_length_pos (lexicon : Lexicon) (previous : Option Char) {t : Text} (ht : t ≠ []) :
    0 < (lexicon.step previous t).length := by
  unfold step
  cases h₁ : Step.toLineEnd? lexicon.rules t with
  | some s => exact Step.toLineEnd?_pos ht h₁
  | none =>
  cases h₂ : Step.region? lexicon.rules t with
  | some s => exact Step.region?_pos ht h₂
  | none =>
  cases h₃ : Step.delimited? lexicon.rules t with
  | some s => exact Step.delimited?_pos ht h₃
  | none =>
  cases h₄ : Step.number? lexicon.rules previous t with
  | some s => exact Step.number?_pos h₄
  | none =>
  cases h₅ : Step.sigilWord? lexicon.rules t with
  | some s => exact Step.sigilWord?_pos h₅
  | none =>
  cases h₆ : Step.word? lexicon t with
  | some s => exact Step.word?_pos h₆
  | none => exact Step.other_pos t

def scan (lexicon : Lexicon) (previous : Option Char) : Text → List Lexeme
  | [] => []
  | c :: t =>
    let s := lexicon.step previous (c :: t)
    let piece := (c :: t).take s.length
    ⟨piece, s.verdict⟩ :: lexicon.scan piece.getLast? ((c :: t).drop s.length)
termination_by t => t.length
decreasing_by
  have := lexicon.step_length_pos previous (List.cons_ne_nil c t)
  simp only [List.length_drop, List.length_cons]
  omega

def lex (lexicon : Lexicon) (before : LineState) (t : Text) : Except LineError LexedLine :=
  if '\n' ∈ t then .error .lineBreak
  else
    match before with
    | .normal =>
      let lexemes := lexicon.scan none t
      .ok ⟨lexemes, Lexeme.stateAfter lexemes⟩
    | .inside id =>
      match findRegion? lexicon.rules id with
      | none => .error (.unknownRegion id)
      | some r =>
        match r.findEnd t with
        | some n =>
          let head := t.take n
          let lexemes := ⟨head, .span r.category⟩ :: lexicon.scan head.getLast? (t.drop n)
          .ok ⟨lexemes, Lexeme.stateAfter lexemes⟩
        | none =>
          .ok ⟨if t = [] then [] else [⟨t, .unclosed r.category r.id⟩], before⟩

end Lexicon

structure ClassifiedLine where
  spans : List Span
  after : LineState
  deriving DecidableEq, Repr

/-- The spans of a lexed line. Spans that are not well formed are not handed out. -/
def LexedLine.classified (t : Text) (l : LexedLine) : ClassifiedLine :=
  let spans := Lexeme.spansFrom 0 l.lexemes
  ⟨if Span.WellFormed t spans then spans else [], l.after⟩

def Lexicon.classify (lexicon : Lexicon) (before : LineState) (t : Text) :
    Except LineError ClassifiedLine :=
  (lexicon.lex before t).map (LexedLine.classified t)

end Highlight
