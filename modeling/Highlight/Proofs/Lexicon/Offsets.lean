import Highlight.Proofs.Lexicon.Pieces
import Highlight.Zig
import Mathlib.Data.List.Basic

/-!
# Scanning by offsets

A line can also be scanned in place, by an offset that moves over its bytes. Such a scan
can go wrong: a cut at an offset that is no place between two characters, or behind the
end, has no result, and neither has a loop that goes round more often than a loop can that
moves on each time, once for each byte of the line and once more to see its end. The scan
of this module does the checks and makes the cuts one after the other. It always has a
result, and the same one as the scan by pieces (`scanAt?_eq`), since every step moves on to
a place between two characters of the line (`stepAt?_eq`).
-/

namespace Highlight

namespace Text

def upTo? (t : Text) (pos : Nat) : Option Text := (t.splitAt? pos).map Prod.fst

def from? (t : Text) (pos : Nat) : Option Text := (t.splitAt? pos).map Prod.snd

end Text

def unitSize (escape : Option Char) : Text → Nat
  | [] => 0
  | [c] => c.utf8Size
  | c :: d :: _ => if escape = some c then c.utf8Size + d.utf8Size else c.utf8Size

/-- The offset behind the closing mark, which is looked for from an offset on. -/
def closingAt? (t closing : Text) (escape : Option Char) (limit : Option Nat) :
    (rounds pos units : Nat) → Option (Option Nat)
  | 0, _, _ => none
  | rounds + 1, pos, units =>
    if pos < t.byteSize then do
      let rest ← t.from? pos
      if (rest.after? closing).isSome then return some (pos + closing.byteSize)
      else if limit.any (· ≤ units) then return none
      else if rest = [] then return none
      else closingAt? t closing escape limit rounds (pos + unitSize escape rest) (units + 1)
    else return none

structure StepAt where
  stop : Nat
  verdict : Verdict
  deriving DecidableEq, Repr

namespace StepAt

def wordRun? (t : Text) (pos : Nat) : Option Nat := do return (wordRun (← t.from? pos)).byteSize

def leadingWord? (t : Text) (pos : Nat) : Option Nat := do
  return (leadingWord (← t.from? pos)).byteSize

variable (lexicon : Lexicon) (t : Text) (pos : Nat)

def toLineEnd? (rest : Text) : Option (Option StepAt) :=
  lexicon.rules.findSomeM? fun
    | .toLineEnd mark c =>
      return if (rest.after? mark).isSome then some ⟨t.byteSize, .span c⟩ else none
    | _ => return none

def region? (rest : Text) : Option (Option StepAt) :=
  lexicon.rules.findSomeM? fun
    | .region r => do
      if (rest.after? r.opening).isSome then
        match ← closingAt? t r.closing r.escape none (t.byteSize + 1)
            (pos + r.opening.byteSize) 0 with
        | some stop => return some ⟨stop, .span r.category⟩
        | none => return some ⟨t.byteSize, .unclosed r.category r.id⟩
      else return none
    | _ => return none

def delimited? (rest : Text) : Option (Option StepAt) :=
  lexicon.rules.findSomeM? fun
    | .delimited d => do
      if (rest.after? d.opening).isSome then
        match ← closingAt? t d.closing d.escape d.limit (t.byteSize + 1)
            (pos + d.opening.byteSize) 0 with
        | some stop => return some ⟨stop, .span d.category⟩
        | none => return if d.isBounded then none else some ⟨t.byteSize, .span d.category⟩
      else return none
    | _ => return none

def number? (before rest : Text) : Option (Option StepAt) :=
  if rest.head?.any Char.isDigit && !before.getLast?.any isWordChar then
    lexicon.rules.findSomeM? fun
      | .numbers m =>
        match m.reach? rest with
        | none => return none
        | some n => do
          let stop := pos + Text.byteSize (rest.take n)
          if (← t.from? stop).head?.any isWordChar then
            return some ⟨stop + (← wordRun? t stop), .plain⟩
          else return some ⟨stop, .span .number⟩
      | _ => return none
  else return none

def sigilWord? (rest : Text) : Option (Option StepAt) :=
  lexicon.rules.findSomeM? fun
    | .sigilWord sigil c => do
      if rest.head? = some sigil then
        let size ← leadingWord? t (pos + sigil.utf8Size)
        return if 0 < size then some ⟨pos + sigil.utf8Size + size, .span c⟩ else none
      else return none
    | _ => return none

def markedCategory? : Option (Option Category) :=
  lexicon.rules.findSomeM? fun
    | .markedWord mark c => do
      return if (← t.from? pos).head? = some mark then some c else none
    | _ => return none

def word? (rest : Text) : Option (Option StepAt) :=
  if rest.head?.any isWordStart then do
    let stop := pos + (← wordRun? t pos)
    let marked ← markedCategory? lexicon t stop
    let word ← t.slice? pos stop
    return some ⟨stop, (marked.or (lexicon.keywords.get? word)).elim .plain .span⟩
  else return none

def other (rest : Text) : Option StepAt :=
  if rest.head?.any Char.isDigit then do return ⟨pos + (← wordRun? t pos), .plain⟩
  else return ⟨pos + Text.byteSize (rest.take 1), .plain⟩

end StepAt

namespace Lexicon

def stepAt? (lexicon : Lexicon) (t : Text) (pos : Nat) : Option StepAt := do
  let rest ← t.from? pos
  if let some s ← StepAt.toLineEnd? lexicon t rest then return s
  if let some s ← StepAt.region? lexicon t pos rest then return s
  if let some s ← StepAt.delimited? lexicon t pos rest then return s
  let before ← t.upTo? pos
  if let some s ← StepAt.number? lexicon t pos before rest then return s
  if let some s ← StepAt.sigilWord? lexicon t pos rest then return s
  if let some s ← StepAt.word? lexicon t pos rest then return s
  StepAt.other t pos rest

def scanAt? (lexicon : Lexicon) (t : Text) : (rounds pos : Nat) → Option (List Span × LineState)
  | 0, _ => none
  | rounds + 1, pos =>
    if pos < t.byteSize then do
      let s ← lexicon.stepAt? t pos
      match s.verdict with
      | .plain => scanAt? lexicon t rounds s.stop
      | .span c => do
        let (spans, after) ← scanAt? lexicon t rounds s.stop
        return (⟨pos, s.stop, c⟩ :: spans, after)
      | .unclosed c id => return ([⟨pos, t.byteSize, c⟩], .inside id)
    else return ([], .normal)

def classifyAt? (lexicon : Lexicon) (before : LineState) (t : Text) :
    Option (Except LineError (List Span × LineState)) :=
  if '\n' ∈ t then return .error .lineBreak
  else
    match before with
    | .normal => do return .ok (← lexicon.scanAt? t (t.byteSize + 1) 0)
    | .inside id =>
      match findRegion? lexicon.rules id with
      | none => return .error (.unknownRegion id)
      | some r => do
        match ← closingAt? t r.closing r.escape none (t.byteSize + 1) 0 0 with
        | some stop =>
          let (spans, after) ← lexicon.scanAt? t (t.byteSize + 1) stop
          return .ok (⟨0, stop, r.category⟩ :: spans, after)
        | none => return .ok (if t = [] then [] else [⟨0, t.byteSize, r.category⟩], before)

end Lexicon

namespace Text

theorem from?_append (t u : Text) : (t ++ u).from? t.byteSize = some u := by
  rw [from?, splitAt?_byteSize]
  rfl

theorem upTo?_append (t u : Text) : (t ++ u).upTo? t.byteSize = some t := by
  rw [upTo?, splitAt?_byteSize]
  rfl

theorem from?_take (t u : Text) (n : Nat) :
    (t ++ u).from? (t.byteSize + byteSize (u.take n)) = some (u.drop n) := by
  have h := from?_append (t ++ u.take n) (u.drop n)
  rwa [List.append_assoc, List.take_append_drop, byteSize_append] at h

theorem byteSize_take_of_after? {t m : Text} (h : (t.after? m).isSome) :
    byteSize (t.take m.length) = m.byteSize := by
  rw [take_length_of_after? h]

end Text

theorem take_length_wordRun (t : Text) : t.take (wordRun t).length = wordRun t :=
  (List.prefix_iff_eq_take.1 (List.takeWhile_prefix isWordChar)).symm

theorem take_length_leadingWord (t : Text) : t.take (leadingWord t).length = leadingWord t := by
  unfold leadingWord
  split
  · exact take_length_wordRun t
  · rfl

theorem isWordChar_eq (c : Char) : isWordChar c = (isWordStart c || c.isDigit) := by
  rw [isWordChar, isWordStart, Char.isAlphanum, Bool.or_right_comm]

theorem isWordChar_of_isWordStart {c : Char} (h : isWordStart c) : isWordChar c := by
  rw [isWordChar_eq, h, Bool.true_or]

theorem wordRun_ne_nil_of_isWordStart {t : Text} (h : t.head?.any isWordStart) :
    wordRun t ≠ [] := by
  cases t with
  | nil => cases h
  | cons c t => exact wordRun_ne_nil (isWordChar_of_isWordStart h)

theorem wordRun_eq_nil_iff {t : Text} : wordRun t = [] ↔ t.head?.any isWordChar = false := by
  cases t with
  | nil => simp [wordRun]
  | cons c t => simp [wordRun, List.takeWhile_cons]

section Closing

variable {closing : Text} {escape : Option Char} {limit : Option Nat} {done rest : Text}
  {rounds units : Nat}

theorem closingAt?_nil :
    closingAt? (done ++ []) closing escape limit (rounds + 1) done.byteSize units = some none := by
  rw [List.append_nil, closingAt?, if_neg (Nat.lt_irrefl _)]
  rfl

theorem closingAt?_of_ne_nil (h : rest ≠ []) :
    closingAt? (done ++ rest) closing escape limit (rounds + 1) done.byteSize units =
      if (rest.after? closing).isSome then some (some (done.byteSize + closing.byteSize))
      else if limit.any (· ≤ units) then some none
      else closingAt? (done ++ rest) closing escape limit rounds
        (done.byteSize + unitSize escape rest) (units + 1) := by
  have hlt : done.byteSize < Text.byteSize (done ++ rest) := by
    rw [Text.byteSize_append]
    exact Nat.lt_add_of_pos_right (Text.byteSize_pos h)
  rw [closingAt?, if_pos hlt, Text.from?_append]
  simp only [Option.bind_eq_bind, Option.bind_some, if_neg h]
  rfl

theorem closingAt?_of_closes (h : (rest.after? closing).isSome) (hne : rest ≠ []) :
    closingAt? (done ++ rest) closing escape limit (rounds + 1) done.byteSize units =
      some (some (done.byteSize + Text.byteSize (rest.take closing.length))) := by
  rw [closingAt?_of_ne_nil hne, if_pos h, Text.byteSize_take_of_after? h]

theorem any_le_iff : limit.any (· ≤ units) = true ↔ limit.map (· - units) = some 0 := by
  cases limit with
  | none => simp
  | some m => simp [Nat.sub_eq_zero_iff_le]

theorem closingAt?_unit (done : Text) (rounds : Nat) {piece : Text} {l : Option Nat}
    (h : ¬((piece ++ rest).after? closing).isSome) (hl : l = limit.map (· - units))
    (hl0 : l ≠ some 0) (hpiece : piece ≠ [])
    (hunit : unitSize escape (piece ++ rest) = piece.byteSize) :
    closingAt? (done ++ (piece ++ rest)) closing escape limit (rounds + 1) done.byteSize units =
      closingAt? ((done ++ piece) ++ rest) closing escape limit rounds (done ++ piece).byteSize
        (units + 1) := by
  have hlimit : ¬limit.any (· ≤ units) = true := by rwa [any_le_iff, ← hl]
  rw [closingAt?_of_ne_nil (List.append_ne_nil_of_left_ne_nil hpiece rest), if_neg h,
    if_neg hlimit, hunit, List.append_assoc, Text.byteSize_append]

theorem exists_rounds {piece : Text} (hpiece : piece ≠ [])
    (hr : Text.byteSize (piece ++ rest) ≤ rounds) : ∃ n, rounds = n + 1 ∧ rest.byteSize ≤ n := by
  have hpos := Text.byteSize_pos hpiece
  rw [Text.byteSize_append] at hr
  exact ⟨rounds - 1, by omega, by omega⟩

theorem map_size_take (done piece rest : Text) (n? : Option Nat) :
    n?.map (fun n => (done ++ piece).byteSize + Text.byteSize (rest.take n)) =
      (n?.map (· + piece.length)).map
        fun n => done.byteSize + Text.byteSize ((piece ++ rest).take n) := by
  cases n? with
  | none => rfl
  | some n =>
    simp only [Option.map_some, Nat.add_comm n, List.take_length_add_append, Text.byteSize_append,
      Nat.add_assoc]

theorem closingAt?_eq (closing : Text) (escape : Option Char) (limit l : Option Nat)
    (done rest : Text) (rounds units : Nat) (hl : l = limit.map (· - units))
    (hr : rest.byteSize ≤ rounds) :
    closingAt? (done ++ rest) closing escape limit (rounds + 1) done.byteSize units =
      some ((findClosing closing escape l rest).map
        fun n => done.byteSize + Text.byteSize (rest.take n)) := by
  have hnext : ∀ {l units}, l = limit.map (· - units) →
      l.map (· - 1) = limit.map (· - (units + 1)) := by
    intro l units hl
    rw [hl, Option.map_map]
    rfl
  fun_induction findClosing closing escape l rest generalizing done rounds units with
  | case1 => exact closingAt?_nil
  | case2 l c h => exact closingAt?_of_closes h (List.cons_ne_nil c [])
  | case3 l c h =>
    obtain ⟨n, rfl, -⟩ := exists_rounds (List.cons_ne_nil c []) hr
    have hend : closingAt? (done ++ [c]) closing escape limit (n + 1)
        (done.byteSize + unitSize escape [c]) (units + 1) = some none := by
      have hnil : closingAt? (done ++ [c] ++ []) closing escape limit (n + 1)
          (done ++ [c]).byteSize (units + 1) = some none := closingAt?_nil
      rwa [List.append_nil, Text.byteSize_append] at hnil
    rw [closingAt?_of_ne_nil (List.cons_ne_nil _ _), if_neg h, hend, ite_self]
    rfl
  | case4 l c d t h => exact closingAt?_of_closes h (List.cons_ne_nil c (d :: t))
  | case5 c d t h =>
    rw [closingAt?_of_ne_nil (List.cons_ne_nil _ _), if_neg h, if_pos (any_le_iff.2 hl.symm)]
    rfl
  | case6 l c d t h hl0 he ih =>
    obtain ⟨n, rfl, hn⟩ := exists_rounds (List.cons_ne_nil c [d]) hr
    have hunit : unitSize escape ([c, d] ++ t) = Text.byteSize [c, d] := if_pos he
    have hstep := closingAt?_unit done (n + 1) h hl hl0 (List.cons_ne_nil c [d]) hunit
    rw [ih (done ++ [c, d]) n (units + 1) (hnext hl) hn] at hstep
    exact hstep.trans (congrArg some (map_size_take done [c, d] t _))
  | case7 l c d t h hl0 he ih =>
    obtain ⟨n, rfl, hn⟩ := exists_rounds (List.cons_ne_nil c []) hr
    have hunit : unitSize escape ([c] ++ d :: t) = Text.byteSize [c] := if_neg he
    have hstep := closingAt?_unit done (n + 1) h hl hl0 (List.cons_ne_nil c []) hunit
    rw [ih (done ++ [c]) n (units + 1) (hnext hl) hn] at hstep
    exact hstep.trans (congrArg some (map_size_take done [c] (d :: t) _))

theorem closingAt?_behind (closing : Text) (escape : Option Char) (limit : Option Nat)
    (done opening rest : Text) :
    closingAt? (done ++ (opening ++ rest)) closing escape limit
        (Text.byteSize (done ++ (opening ++ rest)) + 1) (done.byteSize + opening.byteSize) 0 =
      some ((findClosing closing escape limit rest).map
        fun n => done.byteSize + Text.byteSize ((opening ++ rest).take (opening.length + n))) := by
  have hl : limit = limit.map (· - 0) := Option.map_id'.symm
  have hr : rest.byteSize ≤ Text.byteSize (done ++ (opening ++ rest)) := by
    rw [Text.byteSize_append, Text.byteSize_append]
    omega
  have h := closingAt?_eq closing escape limit limit (done ++ opening) rest _ 0 hl hr
  rw [map_size_take, List.append_assoc, Text.byteSize_append done opening, Option.map_map] at h
  simpa only [Function.comp_def, Nat.add_comm opening.length] using h

end Closing

namespace StepAt

def behind (done rest : Text) (s : Step) : StepAt :=
  ⟨done.byteSize + Text.byteSize (rest.take s.length), s.verdict⟩

theorem behind_length (done rest : Text) (v : Verdict) :
    behind done rest ⟨rest.length, v⟩ = ⟨(done ++ rest).byteSize, v⟩ := by
  rw [behind, List.take_length, Text.byteSize_append]

theorem findSomeM?_eq_map {α β γ : Type} {rules : List α} {f : α → Option (Option γ)}
    {g : α → Option β} (k : β → γ) (h : ∀ r, f r = some ((g r).map k)) :
    rules.findSomeM? f = some ((rules.findSome? g).map k) := by
  have hf : f = fun r => pure ((g r).map k) := funext h
  rw [hf, List.findSomeM?_pure, List.map_findSome?]
  rfl

theorem toLineEnd?_eq (lexicon : Lexicon) (done rest : Text) :
    toLineEnd? lexicon (done ++ rest) rest =
      some ((Step.toLineEnd? lexicon.rules rest).map (behind done rest)) := by
  refine findSomeM?_eq_map (behind done rest) ?_
  intro r
  cases r with
  | toLineEnd mark c =>
    dsimp only
    by_cases h : (rest.after? mark).isSome
    · rw [if_pos h, if_pos h, Option.map_some, behind_length]
      rfl
    · rw [if_neg h, if_neg h]
      rfl
  | _ => rfl

theorem region?_eq (lexicon : Lexicon) (done rest : Text) :
    region? lexicon (done ++ rest) done.byteSize rest =
      some ((Step.region? lexicon.rules rest).map (behind done rest)) := by
  refine findSomeM?_eq_map (behind done rest) ?_
  intro r
  cases r with
  | region r =>
    dsimp only
    cases h : rest.after? r.opening with
    | none => rfl
    | some tail =>
      have hclose := closingAt?_behind r.closing r.escape none done r.opening tail
      rw [← Text.after?_eq_some_iff.1 h] at hclose
      rw [if_pos Option.isSome_some, hclose]
      dsimp only
      rw [Region.findEnd]
      cases findClosing r.closing r.escape none tail with
      | none => rw [Option.map_some, behind_length]; rfl
      | some n => rfl
  | _ => rfl

theorem delimited?_eq (lexicon : Lexicon) (done rest : Text) :
    delimited? lexicon (done ++ rest) done.byteSize rest =
      some ((Step.delimited? lexicon.rules rest).map (behind done rest)) := by
  refine findSomeM?_eq_map (behind done rest) ?_
  intro r
  cases r with
  | delimited d =>
    dsimp only
    unfold Delimited.length?
    cases h : rest.after? d.opening with
    | none => rfl
    | some tail =>
      have hclose := closingAt?_behind d.closing d.escape d.limit done d.opening tail
      rw [← Text.after?_eq_some_iff.1 h] at hclose
      rw [if_pos Option.isSome_some, hclose]
      dsimp only
      rw [Delimited.findClose]
      cases findClosing d.closing d.escape d.limit tail with
      | none =>
        dsimp only
        cases d.isBounded with
        | true => rfl
        | false =>
          have hall := behind_length done rest (.span d.category)
          simp [hall]
      | some n => rfl
  | _ => rfl

theorem wordRun?_eq (done rest : Text) (n : Nat) :
    wordRun? (done ++ rest) (done.byteSize + Text.byteSize (rest.take n)) =
      some (wordRun (rest.drop n)).byteSize := by
  rw [wordRun?, Text.from?_take]
  rfl

theorem number?_eq (lexicon : Lexicon) (done rest : Text) :
    number? lexicon (done ++ rest) done.byteSize done rest =
      some ((Step.number? lexicon.rules done.getLast? rest).map (behind done rest)) := by
  unfold number? Step.number?
  split
  · refine findSomeM?_eq_map (behind done rest) ?_
    intro r
    cases r with
    | numbers m =>
      dsimp only
      cases m.reach? rest with
      | none => rfl
      | some n =>
        simp only [Text.from?_take, wordRun?_eq, Option.bind_eq_bind, Option.bind_some,
          Option.map_some]
        by_cases hw : wordRun (rest.drop n) = []
        · have hhead := wordRun_eq_nil_iff.1 hw
          rw [if_pos hw, if_neg (Bool.eq_false_iff.1 hhead)]
          rfl
        · have hhead : (rest.drop n).head?.any isWordChar = true := by
            rw [← Bool.not_eq_false, ← wordRun_eq_nil_iff]
            exact hw
          rw [if_neg hw, if_pos hhead, behind, List.take_add, take_length_wordRun,
            Text.byteSize_append, Nat.add_assoc]
          rfl
    | _ => rfl
  · rfl

theorem sigilWord?_eq (lexicon : Lexicon) (done rest : Text) :
    sigilWord? lexicon (done ++ rest) done.byteSize rest =
      some ((Step.sigilWord? lexicon.rules rest).map (behind done rest)) := by
  refine findSomeM?_eq_map (behind done rest) ?_
  intro r
  cases r with
  | sigilWord sigil c =>
    dsimp only
    cases rest with
    | nil => rfl
    | cons d tail =>
      by_cases hd : d = sigil
      · subst hd
        have hafter : Text.after? (d :: tail) [d] = some tail := Text.after?_eq_some_iff.2 rfl
        have hword : leadingWord? (done ++ d :: tail) (done.byteSize + d.utf8Size) =
            some (leadingWord tail).byteSize := by
          have hfrom : (done ++ d :: tail).from? (done.byteSize + d.utf8Size) = some tail :=
            Text.from?_take done (d :: tail) 1
          rw [leadingWord?, hfrom]
          rfl
        rw [List.head?_cons, if_pos rfl, hword, hafter]
        dsimp only
        by_cases hw : leadingWord tail = []
        · rw [if_pos hw, hw]
          rfl
        · rw [if_neg hw, Option.map_some, behind, Nat.add_comm 1, List.take_succ_cons,
            take_length_leadingWord]
          simp only [Option.bind_eq_bind, Option.bind_some, if_pos (Text.byteSize_pos hw),
            Text.byteSize, Nat.add_assoc]
          rfl
      · have hafter : Text.after? (d :: tail) [sigil] = none := by
          simp [Text.after?, Ne.symm hd]
        rw [List.head?_cons, if_neg (fun h => hd (Option.some.inj h)), hafter]
        rfl
  | _ => rfl

theorem markedCategory?_eq {lexicon : Lexicon} {t tail : Text} {pos : Nat}
    (h : t.from? pos = some tail) :
    markedCategory? lexicon t pos = some (Step.markedCategory? lexicon.rules tail) := by
  rw [← Option.map_id' (x := Step.markedCategory? lexicon.rules tail)]
  refine findSomeM?_eq_map (fun c => c) ?_
  intro r
  cases r with
  | markedWord mark c =>
    dsimp only
    rw [h, Option.map_id']
    rfl
  | _ => rfl

theorem word?_eq (lexicon : Lexicon) (done rest : Text) :
    word? lexicon (done ++ rest) done.byteSize rest =
      some ((Step.word? lexicon rest).map (behind done rest)) := by
  unfold word? Step.word? leadingWord
  split
  · next hstart =>
    have hne : wordRun rest ≠ [] := wordRun_ne_nil_of_isWordStart hstart
    have hrun : wordRun? (done ++ rest) done.byteSize = some (wordRun rest).byteSize :=
      wordRun?_eq done rest 0
    have hfrom := Text.from?_take done rest (wordRun rest).length
    have hslice := Text.slice?_append done (wordRun rest) (rest.drop (wordRun rest).length)
    have hsplit := List.take_append_drop (wordRun rest).length rest
    rw [take_length_wordRun] at hfrom hsplit
    rw [hsplit] at hslice
    rw [hrun]
    dsimp only
    rw [if_neg hne, Option.map_some, behind, take_length_wordRun]
    simp only [Option.bind_eq_bind, Option.bind_some, markedCategory?_eq hfrom, hslice]
    rfl
  · rfl

theorem other_eq (done rest : Text) :
    other (done ++ rest) done.byteSize rest = some (behind done rest (Step.other rest)) := by
  have hrun : wordRun? (done ++ rest) done.byteSize = some (wordRun rest).byteSize :=
    wordRun?_eq done rest 0
  unfold other Step.other
  split
  · rw [hrun, behind, take_length_wordRun]
    rfl
  · rfl

end StepAt

namespace Lexicon

theorem stepAt?_eq (lexicon : Lexicon) (done rest : Text) :
    lexicon.stepAt? (done ++ rest) done.byteSize =
      some (StepAt.behind done rest (lexicon.step done.getLast? rest)) := by
  unfold stepAt? step
  simp only [Text.from?_append, Text.upTo?_append, StepAt.toLineEnd?_eq, StepAt.region?_eq,
    StepAt.delimited?_eq, StepAt.number?_eq, StepAt.sigilWord?_eq, StepAt.word?_eq,
    StepAt.other_eq, Option.bind_eq_bind, Option.bind_some]
  cases Step.toLineEnd? lexicon.rules rest with
  | some s => rfl
  | none =>
  cases Step.region? lexicon.rules rest with
  | some s => rfl
  | none =>
  cases Step.delimited? lexicon.rules rest with
  | some s => rfl
  | none =>
  cases Step.number? lexicon.rules done.getLast? rest with
  | some s => rfl
  | none =>
  cases Step.sigilWord? lexicon.rules rest with
  | some s => rfl
  | none =>
  cases Step.word? lexicon rest with
  | some s => rfl
  | none => rfl

theorem stepAt?_moves_on (lexicon : Lexicon) {t : Text} {pos : Nat} (hb : t.IsBoundary pos)
    (hlt : pos < t.byteSize) :
    ∃ s, lexicon.stepAt? t pos = some s ∧ pos < s.stop ∧ s.stop ≤ t.byteSize ∧
      t.IsBoundary s.stop := by
  obtain ⟨done, rest, rfl, rfl⟩ := Text.isBoundary_iff.1 hb
  have hne : rest ≠ [] := by
    rintro rfl
    rw [List.append_nil] at hlt
    exact Nat.lt_irrefl _ hlt
  have hpiece := lexicon.take_step_ne_nil done.getLast? hne
  have hsplit : done ++ rest =
      (done ++ rest.take (lexicon.step done.getLast? rest).length) ++
        rest.drop (lexicon.step done.getLast? rest).length := by
    rw [List.append_assoc, List.take_append_drop]
  have hstop : Text.IsBoundary (StepAt.behind done rest (lexicon.step done.getLast? rest)).stop
      (done ++ rest) :=
    Text.isBoundary_iff.2 ⟨_, _, hsplit, (Text.byteSize_append _ _).symm⟩
  exact ⟨_, lexicon.stepAt?_eq done rest, Nat.lt_add_of_pos_right (Text.byteSize_pos hpiece),
    hstop.le_byteSize, hstop⟩

theorem scanAt?_eq (lexicon : Lexicon) (done rest : Text) {rounds : Nat}
    (hr : rest.byteSize ≤ rounds) :
    lexicon.scanAt? (done ++ rest) (rounds + 1) done.byteSize =
      some (Lexeme.spansFrom done.byteSize (lexicon.scan done.getLast? rest),
        Lexeme.stateAfter (lexicon.scan done.getLast? rest)) := by
  generalize hp : done.getLast? = previous
  fun_induction scan lexicon previous rest generalizing done rounds with
  | case1 previous =>
    rw [List.append_nil, scanAt?, if_neg (Nat.lt_irrefl _)]
    rfl
  | case2 previous c t s piece =>
    rename_i ih
    have hne := lexicon.take_step_ne_nil previous (List.cons_ne_nil c t)
    have hlt : done.byteSize < Text.byteSize (done ++ c :: t) := by
      rw [Text.byteSize_append]
      exact Nat.lt_add_of_pos_right (Text.byteSize_pos (List.cons_ne_nil c t))
    have hpieces : piece ++ (c :: t).drop s.length = c :: t := List.take_append_drop _ _
    rw [← hpieces] at hr
    obtain ⟨n, rfl, hn⟩ := exists_rounds hne hr
    have hsplit : done ++ c :: t = (done ++ piece) ++ (c :: t).drop s.length := by
      rw [List.append_assoc, hpieces]
    have hlast : (done ++ piece).getLast? = piece.getLast? := by
      rw [List.getLast?_append, List.getLast?_eq_some_getLast hne, Option.some_or]
    -- The rest is scanned in the same text, from the place behind the piece on.
    have hrest := ih (done ++ piece) hn hlast
    rw [← hsplit, Text.byteSize_append] at hrest
    rw [scanAt?, if_pos hlt, stepAt?_eq, hp]
    simp only [Option.bind_eq_bind, Option.bind_some, StepAt.behind]
    cases hv : s.verdict with
    | plain =>
      dsimp only
      rw [hrest, Lexeme.stateAfter_cons rfl]
      rfl
    | span category =>
      dsimp only
      rw [hrest, Lexeme.stateAfter_cons rfl]
      rfl
    | unclosed category id =>
      have hall : s.length = (c :: t).length := length_step_of_unclosed hv
      have hpiece : piece = c :: t := List.take_of_length_le (Nat.le_of_eq hall.symm)
      have hdrop : (c :: t).drop s.length = [] := List.drop_eq_nil_of_le (Nat.le_of_eq hall.symm)
      rw [hpiece, hdrop, scan, Text.byteSize_append]
      rfl

theorem scanAt?_zero (lexicon : Lexicon) (t : Text) :
    lexicon.scanAt? t (t.byteSize + 1) 0 = some (Lexeme.spansFrom 0 (lexicon.scan none t),
      Lexeme.stateAfter (lexicon.scan none t)) :=
  lexicon.scanAt?_eq [] t (Nat.le_refl _)

theorem classifyAt?_eq (lexicon : Lexicon) (before : LineState) (t : Text) :
    lexicon.classifyAt? before t =
      some ((lexicon.lex before t).map fun l => (Lexeme.spansFrom 0 l.lexemes, l.after)) := by
  unfold classifyAt? lex
  by_cases hn : '\n' ∈ t
  · rw [if_pos hn, if_pos hn]
    rfl
  · rw [if_neg hn, if_neg hn]
    cases before with
    | normal =>
      dsimp only
      rw [scanAt?_zero]
      rfl
    | inside id =>
      dsimp only
      cases hr : findRegion? lexicon.rules id with
      | none => rfl
      | some r =>
        have hclose : closingAt? t r.closing r.escape none (t.byteSize + 1) 0 0 =
            some ((r.findEnd t).map fun n => 0 + Text.byteSize (t.take n)) :=
          closingAt?_eq r.closing r.escape none none [] t _ 0 rfl (Nat.le_refl _)
        dsimp only
        rw [hclose]
        cases r.findEnd t with
        | none =>
          by_cases ht : t = []
          · rw [ht]
            rfl
          · simp only [Option.map_none, Option.bind_eq_bind, Option.bind_some, if_neg ht]
            rw [← Nat.zero_add t.byteSize]
            rfl
        | some n =>
          have hle : Text.byteSize (t.drop n) ≤ t.byteSize := by
            have hsize := Text.byteSize_append (t.take n) (t.drop n)
            rw [List.take_append_drop] at hsize
            omega
          have hscan := lexicon.scanAt?_eq (t.take n) (t.drop n) hle
          rw [List.take_append_drop, ← Nat.zero_add (Text.byteSize (t.take n))] at hscan
          simp only [Option.map_some, Option.bind_eq_bind, Option.bind_some, hscan]
          rw [Lexeme.stateAfter_cons (l := ⟨t.take n, .span r.category⟩) rfl]
          rfl

/-- Every step of a scan moves on within the line, no cut fails and no loop is endless: a
line that starts in a state of the lexicon is classified, by spans that are well formed and
of which none is discarded. -/
theorem classifyAt?_total (lexicon : Lexicon) {t : Text} {before : LineState} (hn : '\n' ∉ t)
    (hb : ∀ id, before = .inside id → (findRegion? lexicon.rules id).isSome) :
    (∀ pos, t.IsBoundary pos → pos < t.byteSize →
      ∃ s, lexicon.stepAt? t pos = some s ∧ pos < s.stop ∧ s.stop ≤ t.byteSize ∧
        t.IsBoundary s.stop) ∧
    ∃ spans after, lexicon.classifyAt? before t = some (.ok (spans, after)) ∧
      Span.WellFormed t spans ∧ lexicon.classify before t = .ok ⟨spans, after⟩ := by
  refine ⟨fun pos hpos hlt => lexicon.stepAt?_moves_on hpos hlt, ?_⟩
  obtain ⟨l, hl⟩ := lexicon.exists_lex_eq_ok hn hb
  obtain ⟨hwf, hclassified⟩ := classified_eq hl
  refine ⟨Lexeme.spansFrom 0 l.lexemes, l.after, ?_, hwf, ?_⟩
  · rw [classifyAt?_eq, hl]
    rfl
  · rw [classify, hl]
    exact congrArg Except.ok hclassified

theorem classifyAt?_total_comment :
    ∃ spans after, Zig.language.lexicon.classifyAt? (.ofCode 1)
        ['*', '/', 'λ', '"', 'é', '"', '/', '*'] = some (.ok (spans, after)) ∧
      Span.WellFormed ['*', '/', 'λ', '"', 'é', '"', '/', '*'] spans ∧
      Zig.language.lexicon.classify (.ofCode 1) ['*', '/', 'λ', '"', 'é', '"', '/', '*'] =
        .ok ⟨spans, after⟩ ∧
      spans = [⟨0, 2, .comment⟩, ⟨4, 8, .string⟩, ⟨8, 10, .comment⟩] ∧
      after = .inside Zig.blockComment.id := by
  have hregion : ∀ id, LineState.ofCode 1 = .inside id →
      (findRegion? Zig.language.lexicon.rules id).isSome := by
    intro id hid
    cases hid
    decide
  have ht : '\n' ∉ ['*', '/', 'λ', '"', 'é', '"', '/', '*'] := by decide
  obtain ⟨-, spans, after, hat, hwellFormed, hclassify⟩ :=
    classifyAt?_total Zig.language.lexicon ht hregion
  have hpinned : Zig.language.lexicon.classify (.ofCode 1)
      ['*', '/', 'λ', '"', 'é', '"', '/', '*'] =
        .ok ⟨[⟨0, 2, .comment⟩, ⟨4, 8, .string⟩, ⟨8, 10, .comment⟩],
          .inside Zig.blockComment.id⟩ := by
    decide +kernel
  cases hpinned.symm.trans hclassify
  exact ⟨_, _, hat, hwellFormed, hclassify, rfl, rfl⟩

end Lexicon

end Highlight
