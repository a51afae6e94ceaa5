import Highlight.Proofs.Lexicon.Kinds
import Highlight.Proofs.Lexicon.Words

/-!
# Brackets without words

A lexicon finds the same brackets whether it knows words and numbers or not
(`classify_bracketsOnly`), if the characters that brackets open with stand in no number and in
no word (`BracketsMarked`). The two scans of a line are not in step: what one takes as a number
with a fraction and a sign the other passes in several pieces. But a step that is no bracket
takes none of those characters, or it takes nothing else (`BracketsMarked.wordStep`), and it
does not end within a word. So the scan without words comes to its end, too, and meets no
bracket before it (`classifiedFrom_bracketsOnly_append`).
-/

namespace Highlight

def Rule.isBracket (r : Rule) : Bool := r.opening?.isSome

theorem Rule.isBracket_iff_kind {r : Rule} :
    r.isBracket ↔ r.kind = .toLineEnd ∨ r.kind = .region ∨ r.kind = .delimited := by
  cases r <;> simp [isBracket, opening?, kind]

variable {piece rest : Text}

namespace Lexeme

def classifiedFrom (pos : Nat) (ls : List Lexeme) : ClassifiedLine :=
  ⟨spansFrom pos ls, stateAfter ls⟩

theorem classifiedFrom_cons_plain (pos : Nat) (piece : Text) (ls : List Lexeme) :
    classifiedFrom pos (⟨piece, .plain⟩ :: ls) = classifiedFrom (pos + piece.byteSize) ls := by
  rw [classifiedFrom, stateAfter_cons rfl, classifiedFrom, spansFrom_cons]
  rfl

theorem stateAfter_cons_congr (l : Lexeme) {ls ls' : List Lexeme} (hnil : ls = [] ↔ ls' = [])
    (h : stateAfter ls = stateAfter ls') : stateAfter (l :: ls) = stateAfter (l :: ls') := by
  cases ls with
  | nil => rw [hnil.1 rfl]
  | cons k ls =>
    cases ls' with
    | nil => cases hnil.2 rfl
    | cons k' ls' => exact h

end Lexeme

namespace Lexicon

def bracketsOnly (lexicon : Lexicon) : Lexicon := { rules := lexicon.rules.filter Rule.isBracket }

variable {lexicon : Lexicon} {previous previous' : Option Char} {t : Text} {v : Verdict}

theorem bracketed?_bracketsOnly (lexicon : Lexicon) (t : Text) :
    Step.bracketed? lexicon.bracketsOnly.rules t = Step.bracketed? lexicon.rules t := by
  have hline : Step.toLineEnd? lexicon.bracketsOnly.rules t = Step.toLineEnd? lexicon.rules t :=
    Step.toLineEnd?_filter _ t fun _ hr => Rule.isBracket_iff_kind.2 (.inl hr)
  have hregion : Step.region? lexicon.bracketsOnly.rules t = Step.region? lexicon.rules t :=
    Step.region?_filter _ t fun _ hr => Rule.isBracket_iff_kind.2 (.inr (.inl hr))
  have hdelimited : Step.delimited? lexicon.bracketsOnly.rules t =
      Step.delimited? lexicon.rules t :=
    Step.delimited?_filter _ t fun _ hr => Rule.isBracket_iff_kind.2 (.inr (.inr hr))
  rw [Step.bracketed?, hline, hregion, hdelimited, Step.bracketed?]

theorem findRegion?_bracketsOnly (lexicon : Lexicon) (id : RegionId) :
    findRegion? lexicon.bracketsOnly.rules id = findRegion? lexicon.rules id :=
  findRegion?_filter _ (fun _ hr => Rule.isBracket_iff_kind.2 (.inr (.inl hr))) id

theorem number?_bracketsOnly (lexicon : Lexicon) (previous : Option Char) (t : Text) :
    Step.number? lexicon.bracketsOnly.rules previous t = none := by
  unfold Step.number?
  split
  · rw [List.findSome?_eq_none_iff]
    intro r hr
    have hbracket : r.isBracket := (List.mem_filter.1 hr).2
    cases r <;> first | rfl | cases hbracket
  · rfl

theorem scan_bracketsOnly_congr (lexicon : Lexicon) (previous previous' : Option Char) (t : Text) :
    lexicon.bracketsOnly.scan previous t = lexicon.bracketsOnly.scan previous' t := by
  cases t with
  | nil => rw [scan, scan]
  | cons c t =>
    have hstep : lexicon.bracketsOnly.step previous (c :: t) =
        lexicon.bracketsOnly.step previous' (c :: t) := by
      rw [step, step, number?_bracketsOnly, number?_bracketsOnly]
    rw [scan, scan, hstep]

theorem WordStep.of_bracketsOnly (h : lexicon.bracketsOnly.WordStep previous piece rest v) :
    v = .plain ∧ (IsRun piece rest ∨ ∃ c, piece = [c]) := by
  cases h with
  | number hm => cases (List.mem_filter.1 hm).2
  | sigilWord hsigil => cases (List.mem_filter.1 hsigil).2
  | word hword =>
    have hmarked : Step.markedCategory? lexicon.bracketsOnly.rules rest = none := by
      unfold Step.markedCategory?
      rw [List.findSome?_eq_none_iff]
      intro r hr
      have hbracket : r.isBracket := (List.mem_filter.1 hr).2
      cases r <;> first | rfl | cases hbracket
    rw [hmarked]
    exact ⟨rfl, .inl hword.toIsRun⟩
  | digits _ hrun => exact ⟨rfl, .inl hrun⟩
  | single => exact ⟨rfl, .inr ⟨_, rfl⟩⟩

theorem classifiedFrom_bracketsOnly_append
    (hopen : ∀ u v, piece = u ++ v → v ≠ [] → Step.bracketed? lexicon.rules (v ++ rest) = none)
    (hbreak : WordBreak piece rest) (pos : Nat) (previous previous' : Option Char) :
    Lexeme.classifiedFrom pos (lexicon.bracketsOnly.scan previous (piece ++ rest)) =
      Lexeme.classifiedFrom (pos + piece.byteSize) (lexicon.bracketsOnly.scan previous' rest) := by
  generalize hn : piece.length = n
  -- On the length of the piece: what is passed in one step is a part of it.
  induction n using Nat.strongRecOn generalizing piece pos previous with
  | ind n ih =>
    by_cases hne : piece = []
    · subst hne
      rw [scan_bracketsOnly_congr lexicon previous previous']
      rfl
    · have htext : piece ++ rest ≠ [] := List.append_ne_nil_of_left_ne_nil hne rest
      have hnone : Step.bracketed? lexicon.bracketsOnly.rules (piece ++ rest) = none := by
        rw [bracketed?_bracketsOnly]
        exact hopen [] piece rfl hne
      obtain ⟨taken, after, v, happend, htaken, hword, hscan⟩ :=
        exists_scan_eq_cons htext hnone previous
      obtain ⟨rfl, hshape⟩ := hword.of_bracketsOnly
      obtain ⟨tail, hpiece, hafter⟩ : ∃ tail, piece = taken ++ tail ∧ after = tail ++ rest := by
        rcases hshape with hrun | ⟨c, hc⟩
        · exact hrun.exists_append happend.symm hne hbreak
        · obtain ⟨d, piece, rfl⟩ := List.exists_cons_of_ne_nil hne
          subst hc
          cases happend
          exact ⟨piece, rfl, rfl⟩
      subst hpiece hafter
      have hopen' (u v : Text) (huv : tail = u ++ v) (hv : v ≠ []) :
          Step.bracketed? lexicon.rules (v ++ rest) = none :=
        hopen (taken ++ u) v (by rw [huv, List.append_assoc]) hv
      have hlen : tail.length < n := by
        have := List.length_pos_iff.2 htaken
        rw [← hn, List.length_append]
        omega
      rw [hscan, Lexeme.classifiedFrom_cons_plain, ih _ hlen hopen' hbreak.of_append _ _ rfl,
        Text.byteSize_append, Nat.add_assoc]

/-- Brackets open with characters of one kind, which stand in no number and in no word. -/
structure BracketsMarked (lexicon : Lexicon) (opens : Char → Bool) : Prop where
  opening : ∀ r ∈ lexicon.rules, ∀ mark, r.opening? = some mark → mark.head?.any opens
  word : ∀ c, isWordChar c → ¬ opens c
  number : ∀ m, .numbers m ∈ lexicon.rules → ∀ t n, m.reach? t = some n → ∀ c ∈ t.take n, ¬ opens c
  sigil : ∀ sigil c, .sigilWord sigil c ∈ lexicon.rules → ¬ opens sigil

variable {opens : Char → Bool}

theorem BracketsMarked.head_of_bracketed (h : lexicon.BracketsMarked opens) {s : Step}
    (hs : Step.bracketed? lexicon.rules t = some s) : t.head?.any opens := by
  obtain ⟨r, hr, mark, hmark, rest, rfl⟩ := (Step.isBracket_of_bracketed? hs).opens
  have hhead := h.opening r hr mark hmark
  cases mark with
  | nil => cases hhead
  | cons c mark => exact hhead

theorem BracketsMarked.wordStep (h : lexicon.BracketsMarked opens)
    (hs : lexicon.WordStep previous piece rest v) :
    (∀ c ∈ piece, ¬ opens c) ∨ v = .plain ∧ ∃ c, piece = [c] := by
  cases hs with
  | @number m literal glued _ hm _ _ hreach hglued =>
    left
    intro c hc
    rcases List.mem_append.1 hc with hc | hc
    · exact h.number m hm _ _ hreach c (by rwa [List.take_left])
    · exact h.word c (hglued.all c hc)
  | sigilWord hsigil hword =>
    exact .inl (List.forall_mem_cons.2 ⟨h.sigil _ _ hsigil, fun c hc => h.word c (hword.all c hc)⟩)
  | word hword => exact .inl fun c hc => h.word c (hword.all c hc)
  | digits _ hrun => exact .inl fun c hc => h.word c (hrun.all c hc)
  | single => exact .inr ⟨rfl, _, rfl⟩

theorem BracketsMarked.verdict (h : lexicon.BracketsMarked opens)
    (hs : lexicon.WordStep previous piece rest v) :
    v = .plain ∨ (∃ c, v = .span c) ∧ ¬ piece.head?.any opens := by
  rcases hs.verdict_eq with hv | hv
  · exact .inl hv
  · rcases h.wordStep hs with hchars | ⟨hplain, -⟩
    · refine .inr ⟨hv, ?_⟩
      cases piece with
      | nil => simp
      | cons c piece => exact hchars c List.mem_cons_self
    · exact .inl hplain

theorem BracketsMarked.not_bracketed_within (h : lexicon.BracketsMarked opens)
    (hs : lexicon.WordStep previous piece rest v)
    (hnone : Step.bracketed? lexicon.rules (piece ++ rest) = none) (u w : Text)
    (huw : piece = u ++ w) (hw : w ≠ []) : Step.bracketed? lexicon.rules (w ++ rest) = none := by
  obtain ⟨d, w, rfl⟩ := List.exists_cons_of_ne_nil hw
  rcases h.wordStep hs with hchars | ⟨-, c, hc⟩
  · cases hb : Step.bracketed? lexicon.rules (d :: w ++ rest) with
    | none => rfl
    | some b =>
      have hd : d ∈ piece := by
        rw [huw]
        exact List.mem_append_right u List.mem_cons_self
      exact absurd (h.head_of_bracketed hb) (hchars d hd)
  · obtain ⟨rfl, -⟩ : u = [] ∧ w = [] := by
      have hlen := congrArg List.length (huw.symm.trans hc)
      simp only [List.length_append, List.length_cons, List.length_nil] at hlen
      exact ⟨List.length_eq_zero_iff.1 (by omega), List.length_eq_zero_iff.1 (by omega)⟩
    rwa [huw, List.nil_append] at hnone

end Lexicon

namespace Span

def startsWith (opens : Char → Bool) (line : Text) (s : Span) : Bool :=
  (s.text line).head?.any opens

theorem startsWith_append (opens : Char → Bool) (done piece rest : Text) (c : Category) :
    startsWith opens (done ++ (piece ++ rest))
        ⟨done.byteSize, done.byteSize + piece.byteSize, c⟩ = piece.head?.any opens := by
  rw [startsWith, text, Text.slice?_append, Option.getD_some]

/-- A span of a line is a bracket if it opens in the line or carries on what was open in front
of it. -/
def isBracket (opens : Char → Bool) (before : LineState) (line : Text) (s : Span) : Bool :=
  (before.isInside && s.start == 0) || s.startsWith opens line

end Span

def ClassifiedLine.filter (p : Span → Bool) (c : ClassifiedLine) : ClassifiedLine :=
  { c with spans := c.spans.filter p }

namespace Lexeme

variable {opens : Char → Bool} {done piece rest : Text} {v : Verdict} {ls ls' : List Lexeme}

theorem filter_classifiedFrom_unopened
    (h : v = .plain ∨ (∃ c, v = .span c) ∧ ¬ piece.head?.any opens) :
    (classifiedFrom done.byteSize (⟨piece, v⟩ :: ls)).filter
        (Span.startsWith opens (done ++ (piece ++ rest))) =
      (classifiedFrom (done.byteSize + piece.byteSize) ls).filter
        (Span.startsWith opens (done ++ (piece ++ rest))) := by
  rcases h with rfl | ⟨⟨c, rfl⟩, hhead⟩
  · rw [classifiedFrom_cons_plain]
  · have hdrop : ¬ Span.startsWith opens (done ++ (piece ++ rest))
        ⟨done.byteSize, done.byteSize + piece.byteSize, c⟩ := by
      rwa [Span.startsWith_append]
    rw [classifiedFrom, stateAfter_cons rfl, ClassifiedLine.filter, spansFrom_cons]
    exact congrArg (ClassifiedLine.mk · _) (List.filter_cons_of_neg hdrop)

theorem filter_classifiedFrom_opened {c : Category} (hc : v.category? = some c)
    (hhead : piece.head?.any opens) (hnil : ls' = [] ↔ ls = [])
    (htail : classifiedFrom (done.byteSize + piece.byteSize) ls' =
      (classifiedFrom (done.byteSize + piece.byteSize) ls).filter
        (Span.startsWith opens (done ++ (piece ++ rest)))) :
    classifiedFrom done.byteSize (⟨piece, v⟩ :: ls') =
      (classifiedFrom done.byteSize (⟨piece, v⟩ :: ls)).filter
        (Span.startsWith opens (done ++ (piece ++ rest))) := by
  have hkeep : Span.startsWith opens (done ++ (piece ++ rest))
      ⟨done.byteSize, done.byteSize + piece.byteSize, c⟩ := by
    rwa [Span.startsWith_append]
  obtain ⟨hspans, hafter⟩ := ClassifiedLine.mk.inj htail
  rw [classifiedFrom, stateAfter_cons_congr _ hnil hafter, classifiedFrom, ClassifiedLine.filter,
    spansFrom_cons, spansFrom_cons, span?, hc]
  dsimp only [Option.map_some, Option.toList_some, List.singleton_append]
  rw [List.filter_cons_of_pos hkeep]
  exact congrArg (fun ss => ClassifiedLine.mk (_ :: ss) _) hspans

end Lexeme

namespace Lexicon

variable {lexicon : Lexicon} {opens : Char → Bool}

theorem scan_eq_nil_iff {previous : Option Char} {t : Text} :
    lexicon.scan previous t = [] ↔ t = [] := by
  cases t with
  | nil => simp [scan]
  | cons c t => simp [scan]

theorem BracketsMarked.classifiedFrom_scan (h : lexicon.BracketsMarked opens) {line : Text}
    (previous : Option Char) (t done : Text) (hline : line = done ++ t) :
    Lexeme.classifiedFrom done.byteSize (lexicon.bracketsOnly.scan previous t) =
      (Lexeme.classifiedFrom done.byteSize (lexicon.scan previous t)).filter
        (Span.startsWith opens line) := by
  fun_induction scan lexicon previous t generalizing done with
  | case1 =>
    rw [scan]
    rfl
  | case2 previous c t s piece =>
    rename_i ih
    have hne : piece ≠ [] := lexicon.take_step_ne_nil previous (List.cons_ne_nil c t)
    have htext : piece ++ (c :: t).drop s.length = c :: t := List.take_append_drop _ _
    have htail := ih (done ++ piece) (by rw [hline, List.append_assoc, htext])
    rw [← htext] at hline
    rw [hline, Text.byteSize_append] at htail
    rw [hline]
    cases hbracket : Step.bracketed? lexicon.rules (c :: t) with
    | some b =>
      obtain rfl : s = b := step_of_bracketed hbracket previous
      have hstep : lexicon.bracketsOnly.step previous (c :: t) = s :=
        step_of_bracketed ((bracketed?_bracketsOnly lexicon (c :: t)).trans hbracket) previous
      obtain ⟨category, hcategory⟩ := (Step.isBracket_of_bracketed? hbracket).has_category
      have hhead := h.head_of_bracketed hbracket
      rw [← htext, Text.head?_append_of_ne_nil hne] at hhead
      rw [scan, hstep]
      exact Lexeme.filter_classifiedFrom_opened hcategory hhead
        (scan_eq_nil_iff.trans scan_eq_nil_iff.symm) htail
    | none =>
      -- The scans part here, and meet again behind the piece.
      have hword := wordStep_step previous (List.cons_ne_nil c t) hbracket
      rw [← htext] at hbracket
      have hpass := classifiedFrom_bracketsOnly_append (h.not_bracketed_within hword hbracket)
        hword.wordBreak done.byteSize previous piece.getLast?
      rw [List.take_append_drop] at hpass
      rw [Lexeme.filter_classifiedFrom_unopened (h.verdict hword), ← htail]
      exact hpass

theorem BracketsMarked.carried_scan (h : lexicon.BracketsMarked opens) {before : LineState}
    (hbefore : before.isInside) {head : Text} (hne : head ≠ []) (rest : Text) (c : Category) :
    Lexeme.classifiedFrom 0 (⟨head, .span c⟩ :: lexicon.bracketsOnly.scan head.getLast? rest) =
      (Lexeme.classifiedFrom 0 (⟨head, .span c⟩ :: lexicon.scan head.getLast? rest)).filter
        (Span.isBracket opens before (head ++ rest)) := by
  have hkeep : Span.isBracket opens before (head ++ rest) ⟨0, 0 + head.byteSize, c⟩ := by
    rw [Span.isBracket, hbefore]
    rfl
  have hcons (ls : List Lexeme) : Lexeme.classifiedFrom 0 (⟨head, .span c⟩ :: ls) =
      ⟨⟨0, 0 + head.byteSize, c⟩ :: Lexeme.spansFrom head.byteSize ls, Lexeme.stateAfter ls⟩ := by
    rw [Lexeme.classifiedFrom, Lexeme.stateAfter_cons rfl, Lexeme.spansFrom_cons, Lexeme.span?,
      Nat.zero_add]
    rfl
  -- Behind the region no span begins with the line.
  have hbehind (ls : List Lexeme) :
      (Lexeme.spansFrom head.byteSize ls).filter (Span.isBracket opens before (head ++ rest)) =
        (Lexeme.spansFrom head.byteSize ls).filter (Span.startsWith opens (head ++ rest)) := by
    refine List.filter_congr fun s hs => ?_
    have hpos := Text.byteSize_pos hne
    have hstart := Lexeme.le_start_of_mem_spansFrom hs
    have hzero : (s.start == 0) = false := beq_false_of_ne (by omega)
    rw [Span.isBracket, hzero, Bool.and_false, Bool.false_or]
  obtain ⟨hspans, hafter⟩ :=
    ClassifiedLine.mk.inj (h.classifiedFrom_scan head.getLast? rest head rfl)
  rw [hcons, hcons, hspans, hafter, ClassifiedLine.filter, List.filter_cons_of_pos hkeep, hbehind]
  rfl

theorem BracketsMarked.exists_lex (h : lexicon.BracketsMarked opens) {before : LineState} {t : Text}
    {x : LexedLine} (hx : lexicon.lex before t = .ok x) :
    ∃ y, lexicon.bracketsOnly.lex before t = .ok y ∧
      (⟨Lexeme.spansFrom 0 y.lexemes, y.after⟩ : ClassifiedLine) =
        ClassifiedLine.filter (Span.isBracket opens before t)
          ⟨Lexeme.spansFrom 0 x.lexemes, x.after⟩ := by
  unfold lex at hx ⊢
  split at hx
  · cases hx
  · next ht =>
    rw [if_neg ht]
    split at hx
    · cases hx
      exact ⟨_, rfl, h.classifiedFrom_scan none t [] rfl⟩
    · next id =>
      dsimp only
      rw [findRegion?_bracketsOnly]
      split at hx
      · cases hx
      · next r hr =>
        split at hx
        · next n hn =>
          cases hx
          have hinside : (LineState.inside id).isInside := rfl
          have hcarried :=
            h.carried_scan hinside (take_findEnd_ne_nil hn) (t.drop n) r.category
          rw [List.take_append_drop] at hcarried
          exact ⟨⟨_, _⟩, rfl, hcarried⟩
        · next hn =>
          cases hx
          have hkeep (s : Span) (hs : s ∈ Lexeme.spansFrom 0
              (if t = [] then [] else [⟨t, .unclosed r.category r.id⟩])) :
              Span.isBracket opens (.inside id) t s := by
            split at hs
            · cases hs
            · rw [List.mem_singleton.1 hs]
              rfl
          refine ⟨⟨_, .inside id⟩, rfl, ?_⟩
          exact congrArg (ClassifiedLine.mk · _) (List.filter_eq_self.2 hkeep).symm

/-- A lexicon finds the brackets of a line that it finds without its words and numbers, and no
others. -/
theorem BracketsMarked.classify_bracketsOnly (h : lexicon.BracketsMarked opens)
    {before : LineState} {t : Text} {c : ClassifiedLine} (hc : lexicon.classify before t = .ok c) :
    lexicon.bracketsOnly.classify before t = .ok (c.filter (Span.isBracket opens before t)) := by
  obtain ⟨x, hx, rfl⟩ := exists_lex_of_classify hc
  obtain ⟨y, hy, heq⟩ := h.exists_lex hx
  rw [classify_eq_ok hy, heq]

end Lexicon

def Language.bracketsOnly (l : Language) : Language := { l with lexicon := l.lexicon.bracketsOnly }

end Highlight
