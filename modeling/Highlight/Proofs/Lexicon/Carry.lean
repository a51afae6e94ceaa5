import Highlight.Proofs.Lexicon.Pieces
import Highlight.Proofs.Text.Joined
import Highlight.Zig

/-!
# Regions carried from line to line

A region that runs over several lines is looked for line by line, and what is open is
carried in between. That finds the same end as one search in the text that joins the lines
(`endAt?_joinLines`): a closing mark holds no newline, and an escape character at the end
of a line takes only the newline along, so behind a newline every search begins anew.
-/

namespace Highlight

section Closing

variable {closing : Text} {escape : Option Char} {limit : Option Nat} {t : Text} {n : Nat}
  {sep : Char}

theorem after?_append_cons (hc : sep ∉ closing) (t u : Text) :
    (t ++ sep :: u).after? closing = (t.after? closing).map (· ++ sep :: u) := by
  induction closing generalizing t with
  | nil => simp [Text.after?]
  | cons m ms ih =>
    simp only [List.mem_cons, not_or] at hc
    cases t with
    | nil => simp [Text.after?, Ne.symm hc.1]
    | cons c t =>
      by_cases hm : m = c
      · simp [Text.after?, hm, ih hc.2]
      · simp [Text.after?, hm]

theorem isSome_after?_append_cons (hc : sep ∉ closing) (t u : Text) :
    ((t ++ sep :: u).after? closing).isSome = (t.after? closing).isSome := by
  rw [after?_append_cons hc, Option.isSome_map]

theorem findClosing_cons (closing : Text) (escape : Option Char) (c : Char) (t : Text) :
    findClosing closing escape none (c :: t) =
      if (Text.after? (c :: t) closing).isSome then some closing.length
      else if escape = some c then (findClosing closing escape none t.tail).map (· + 2)
      else (findClosing closing escape none t).map (· + 1) := by
  cases t <;> simp [findClosing]

theorem findClosing_cons_of_not_mem (hc : sep ∉ closing) (hne : closing ≠ [])
    (he : escape ≠ some sep) (u : Text) :
    findClosing closing escape none (sep :: u) =
      (findClosing closing escape none u).map (· + 1) := by
  have hafter : (Text.after? (sep :: u) closing).isSome = false := by
    obtain ⟨m, ms, rfl⟩ := List.exists_cons_of_ne_nil hne
    exact isSome_after?_append_cons hc [] u
  simp [findClosing_cons, hafter, he]

theorem findClosing_append_cons (hc : sep ∉ closing) (hne : closing ≠ [])
    (he : escape ≠ some sep) (t u : Text) :
    findClosing closing escape none (t ++ sep :: u) =
      (findClosing closing escape none t).or
        ((findClosing closing escape none u).map (· + (t.length + 1))) := by
  generalize hl : (none : Option Nat) = limit
  fun_induction findClosing closing escape limit t with
  | case1 => simp [← hl, findClosing_cons_of_not_mem hc hne he]
  | case2 l c h =>
    subst hl
    rw [← isSome_after?_append_cons hc [c] u] at h
    simp_all [findClosing_cons]
  | case3 l c h =>
    subst hl
    rw [← isSome_after?_append_cons hc [c] u] at h
    -- An escape character takes the separator with it, which is not missed behind it.
    by_cases hesc : escape = some c
    · simp_all [findClosing_cons]
    · simp_all [findClosing_cons, findClosing_cons_of_not_mem hc hne he, Function.comp_def]
  | case4 l c d t h =>
    subst hl
    rw [← isSome_after?_append_cons hc (c :: d :: t) u] at h
    simp_all [findClosing_cons]
  | case5 c d t h => cases hl
  | case6 l c d t h hl0 hesc ih =>
    subst hl
    rw [← isSome_after?_append_cons hc (c :: d :: t) u] at h
    rw [List.cons_append, findClosing_cons, ← List.cons_append, if_neg h, if_pos hesc,
      List.cons_append, List.tail_cons]
    simp only [Option.map_none] at ih ⊢
    rw [ih trivial]
    simp [Option.map_or, Function.comp_def, Nat.add_assoc]
  | case7 l c d t h hl0 hesc ih =>
    subst hl
    rw [← isSome_after?_append_cons hc (c :: d :: t) u] at h
    rw [List.cons_append, findClosing_cons, ← List.cons_append, if_neg h, if_neg hesc]
    simp only [Option.map_none] at ih ⊢
    rw [ih trivial]
    simp [Option.map_or, Function.comp_def, Nat.add_assoc]

theorem findClosing_le_length (h : findClosing closing escape limit t = some n) :
    n ≤ t.length := by
  have hafter {u : Text} (hu : (u.after? closing).isSome) : closing.length ≤ u.length := by
    obtain ⟨r, hr⟩ := Option.isSome_iff_exists.1 hu
    rw [Text.after?_eq_some_iff.1 hr, List.length_append]
    exact Nat.le_add_right _ _
  fun_induction findClosing closing escape limit t generalizing n with
  | case1 => cases h
  | case2 l c hc => cases h; exact hafter hc
  | case3 => cases h
  | case4 l c d t hc => cases h; exact hafter hc
  | case5 => cases h
  | case6 l c d t _ _ _ ih =>
    obtain ⟨m, hm, rfl⟩ := Option.map_eq_some_iff.1 h
    exact Nat.add_le_add_right (ih hm) 2
  | case7 l c d t _ _ _ ih =>
    obtain ⟨m, hm, rfl⟩ := Option.map_eq_some_iff.1 h
    exact Nat.add_le_add_right (ih hm) 1

end Closing

namespace Region

/-- The offset behind the end of a region that is looked for from an offset on. -/
def endAt? (r : Region) (t : Text) (start : Nat) : Option Nat := do
  let (_, rest) ← t.splitAt? start
  return start + Text.byteSize (rest.take (← r.findEnd rest))

def carried (r : Region) (t : Text) : ClassifiedLine :=
  ⟨if t = [] then [] else [⟨0, t.byteSize, r.category⟩], .inside r.id⟩

variable {r : Region}

theorem endAt?_append (r : Region) (t u : Text) :
    r.endAt? (t ++ u) t.byteSize =
      (r.findEnd u).map fun n => t.byteSize + Text.byteSize (u.take n) := by
  cases h : r.findEnd u <;> simp [endAt?, Text.splitAt?_byteSize, h]

theorem endAt?_zero (r : Region) (t : Text) :
    r.endAt? t 0 = (r.findEnd t).map fun n => Text.byteSize (t.take n) := by
  simpa [Text.byteSize] using r.endAt?_append [] t

theorem endAt?_le {t : Text} {start e : Nat} (hstart : t.IsBoundary start)
    (h : r.endAt? t start = some e) : e ≤ t.byteSize := by
  obtain ⟨done, rest, rfl, rfl⟩ := Text.isBoundary_iff.1 hstart
  rw [endAt?_append] at h
  obtain ⟨n, -, rfl⟩ := Option.map_eq_some_iff.1 h
  have hsize := Text.byteSize_append (rest.take n) (rest.drop n)
  rw [List.take_append_drop] at hsize
  rw [Text.byteSize_append]
  omega

theorem endAt?_joinLines (hc : '\n' ∉ r.closing) (he : r.escape ≠ some '\n') {l : Text}
    {start : Nat} (hstart : l.IsBoundary start) (ls : List Text) :
    r.endAt? (Text.joinLines (l :: ls)) start =
      (r.endAt? l start).or
        ((r.endAt? (Text.joinLines ls) 0).map (l.byteSize + 1 + ·)) := by
  obtain ⟨done, rest, rfl, rfl⟩ := Text.isBoundary_iff.1 hstart
  by_cases hls : ls = []
  · subst hls
    simp [Text.joinLines, endAt?_zero, findEnd, findClosing]
  · rw [Text.joinLines_cons _ hls, List.append_assoc, endAt?_append, endAt?_append, endAt?_zero,
      findEnd, findClosing_append_cons hc r.closing_ne_nil he]
    cases hn : findClosing r.closing r.escape none rest with
    | some n =>
      have hle := findClosing_le_length hn
      simp [findEnd, hn, List.take_append_of_le_length hle]
    | none =>
      have hnewline (t : Text) : Text.byteSize ('\n' :: t) = 1 + t.byteSize := rfl
      have htake (n : Nat) (t : Text) :
          (rest ++ '\n' :: t).take (n + (rest.length + 1)) = rest ++ '\n' :: t.take n := by
        rw [show n + (rest.length + 1) = rest.length + (n + 1) by omega,
          List.take_length_add_append, List.take_succ_cons]
      simp only [findEnd, hn, Option.none_or, Option.map_none, Option.map_map, Function.comp_def,
        htake, Text.byteSize_append, hnewline, Nat.add_assoc]

end Region

def Rule.regionId? : Rule → Option RegionId
  | .region r => some r.id
  | _ => none

theorem findRegion?_of_mem {rules : List Rule} {r : Region} (hr : .region r ∈ rules)
    (hids : (rules.filterMap Rule.regionId?).Nodup) : findRegion? rules r.id = some r := by
  induction rules with
  | nil => cases hr
  | cons rule rules ih =>
    rcases List.mem_cons.1 hr with rfl | hmem
    · simp [findRegion?]
    · cases rule with
      | region s =>
        have hids : (s.id :: rules.filterMap Rule.regionId?).Nodup := hids
        rw [List.nodup_cons] at hids
        have hne : s.id ≠ r.id := by
          intro heq
          exact hids.1 (List.mem_filterMap.2 ⟨.region r, hmem, congrArg some heq.symm⟩)
        simpa [findRegion?, hne] using ih hmem hids.2
      | _ => exact ih hmem hids

namespace Lexicon

/-- Classifies lines one after the other, each from the state that the line before leaves. -/
def classifyLines (lexicon : Lexicon) :
    LineState → List Text → Except LineError (List ClassifiedLine)
  | _, [] => .ok []
  | before, t :: ts => do
    let c ← lexicon.classify before t
    return c :: (← lexicon.classifyLines c.after ts)

variable {lexicon : Lexicon} {r : Region} {t : Text}

theorem classify_carried (hr : findRegion? lexicon.rules r.id = some r) (ht : '\n' ∉ t)
    (h : r.endAt? t 0 = none) : lexicon.classify (.inside r.id) t = .ok (r.carried t) := by
  rw [Region.endAt?_zero, Option.map_eq_none_iff] at h
  have hlex : lexicon.lex (.inside r.id) t =
      .ok ⟨if t = [] then [] else [⟨t, .unclosed r.category r.id⟩], .inside r.id⟩ := by
    simp [lex, ht, hr, h]
  rw [classify_eq_ok hlex, Region.carried]
  by_cases hnil : t = []
  · simp [hnil, Lexeme.spansFrom]
  · simp [hnil, Lexeme.spansFrom, Verdict.category?]

theorem lex_inside {id : RegionId} {r : Region} {t : Text} {n : Nat} (ht : '\n' ∉ t)
    (hr : findRegion? lexicon.rules id = some r) (hn : r.findEnd t = some n) :
    lexicon.lex (.inside id) t =
      .ok ⟨⟨t.take n, .span r.category⟩ :: lexicon.scan (t.take n).getLast? (t.drop n),
        Lexeme.stateAfter (lexicon.scan (t.take n).getLast? (t.drop n))⟩ := by
  rw [lex, if_neg ht]
  simp only [hr, hn]
  rw [Lexeme.stateAfter_cons rfl]

theorem classify_inside {id : RegionId} {r : Region} {t : Text} {n : Nat} (ht : '\n' ∉ t)
    (hr : findRegion? lexicon.rules id = some r) (hn : r.findEnd t = some n) :
    lexicon.classify (.inside id) t =
      .ok ⟨⟨0, Text.byteSize (t.take n), r.category⟩ ::
          Lexeme.spansFrom (Text.byteSize (t.take n))
            (lexicon.scan (t.take n).getLast? (t.drop n)),
        Lexeme.stateAfter (lexicon.scan (t.take n).getLast? (t.drop n))⟩ := by
  rw [classify_eq_ok (lex_inside ht hr hn)]
  simp only [Lexeme.spansFrom, Verdict.category?, Nat.zero_add]

theorem classify_closed (hr : findRegion? lexicon.rules r.id = some r) (ht : '\n' ∉ t) {e : Nat}
    (h : r.endAt? t 0 = some e) :
    ∃ c, lexicon.classify (.inside r.id) t = .ok c ∧
      c.spans.head? = some ⟨0, e, r.category⟩ := by
  rw [Region.endAt?_zero] at h
  obtain ⟨n, hn, rfl⟩ := Option.map_eq_some_iff.1 h
  exact ⟨_, classify_inside ht hr hn, rfl⟩

theorem classifyLines_cons {before : LineState} {c : ClassifiedLine} {cs : List ClassifiedLine}
    {ts : List Text} (hc : lexicon.classify before t = .ok c)
    (hcs : lexicon.classifyLines c.after ts = .ok cs) :
    lexicon.classifyLines before (t :: ts) = .ok (c :: cs) := by
  rw [classifyLines, hc]
  simp [bind, Except.bind, pure, Except.pure, hcs]

theorem classifyLines_inside (hr : findRegion? lexicon.rules r.id = some r)
    (hc : '\n' ∉ r.closing) (he : r.escape ≠ some '\n') {ls : List Text}
    (hfree : Text.NewlineFree ls) :
    (r.endAt? (Text.joinLines ls) 0 = none →
      lexicon.classifyLines (.inside r.id) ls = .ok (ls.map r.carried)) ∧
    ∀ g, r.endAt? (Text.joinLines ls) 0 = some g → ∃ j e, Text.FallsOn ls g j e ∧
      ∃ c, lexicon.classifyLines (.inside r.id) (ls.take (j + 1)) =
          .ok ((ls.take j).map r.carried ++ [c]) ∧ c.spans.head? = some ⟨0, e, r.category⟩ := by
  induction ls with
  | nil =>
    have hnone : r.endAt? (Text.joinLines []) 0 = none := rfl
    refine ⟨fun _ => rfl, ?_⟩
    intro g hg
    cases hnone.symm.trans hg
  | cons t ts ih =>
    obtain ⟨ht, hts⟩ := Text.newlineFree_cons.1 hfree
    obtain ⟨ihnone, ihsome⟩ := ih hts
    have hzero : t.IsBoundary 0 := by simp [Text.IsBoundary, Text.splitAt?]
    rw [Region.endAt?_joinLines hc he hzero]
    cases h : r.endAt? t 0 with
    | none =>
      have hcarried := classify_carried hr ht h
      constructor
      · intro hnone
        exact classifyLines_cons hcarried (ihnone (by simpa using hnone))
      · intro g hg
        obtain ⟨g', hg', rfl⟩ : ∃ g', r.endAt? (Text.joinLines ts) 0 = some g' ∧
            t.byteSize + 1 + g' = g := by simpa using hg
        obtain ⟨j, e, hfalls, c, hlines, hhead⟩ := ihsome g' hg'
        exact ⟨j + 1, e, Text.fallsOn_succ hfalls, c, classifyLines_cons hcarried hlines, hhead⟩
    | some e =>
      constructor
      · intro hnone
        simp at hnone
      · intro g hg
        obtain rfl : e = g := by simpa using hg
        obtain ⟨c, hclosed, hhead⟩ := classify_closed hr ht h
        exact ⟨0, e, Text.fallsOn_zero (Region.endAt?_le hzero h), c,
          classifyLines_cons hclosed rfl, hhead⟩

/-- A region that is open in a line is carried from line to line as far as one search in the
joined lines goes, and is closed where that search ends. -/
theorem classifyLines_eq_endAt?_joinLines {lexicon : Lexicon} {r : Region}
    (hr : .region r ∈ lexicon.rules) (hids : (lexicon.rules.filterMap Rule.regionId?).Nodup)
    (hc : '\n' ∉ r.closing) (he : r.escape ≠ some '\n') {l : Text} {ls : List Text}
    (hfree : Text.NewlineFree (l :: ls)) {start : Nat} (hstart : l.IsBoundary start) :
    (r.endAt? (Text.joinLines (l :: ls)) start = none →
      r.endAt? l start = none ∧
        lexicon.classifyLines (.inside r.id) ls = .ok (ls.map r.carried)) ∧
    ∀ g, r.endAt? (Text.joinLines (l :: ls)) start = some g →
      (∃ j e, Text.FallsOn (l :: ls) g j e) ∧
      (∀ e, Text.FallsOn (l :: ls) g 0 e → r.endAt? l start = some e) ∧
      ∀ j e, Text.FallsOn (l :: ls) g (j + 1) e →
        r.endAt? l start = none ∧
        ∃ c, lexicon.classifyLines (.inside r.id) (ls.take (j + 1)) =
            .ok ((ls.take j).map r.carried ++ [c]) ∧
          c.spans.head? = some ⟨0, e, r.category⟩ := by
  have hfind := findRegion?_of_mem hr hids
  obtain ⟨hnone, hsome⟩ := classifyLines_inside hfind hc he (Text.newlineFree_cons.1 hfree).2
  rw [Region.endAt?_joinLines hc he hstart]
  cases h : r.endAt? l start with
  | none =>
    constructor
    · intro hg
      exact ⟨rfl, hnone (by simpa using hg)⟩
    · intro g hg
      obtain ⟨g', hg', rfl⟩ : ∃ g', r.endAt? (Text.joinLines ls) 0 = some g' ∧
          l.byteSize + 1 + g' = g := by simpa using hg
      obtain ⟨j, e, hfalls, hlines⟩ := hsome g' hg'
      have hfalls : Text.FallsOn (l :: ls) (l.byteSize + 1 + g') (j + 1) e :=
        Text.fallsOn_succ hfalls
      refine ⟨⟨j + 1, e, hfalls⟩, ?_, ?_⟩
      · intro e' he'
        cases (hfalls.eq he').1
      · intro j' e' he'
        obtain ⟨hj, rfl⟩ := hfalls.eq he'
        cases hj
        exact ⟨rfl, hlines⟩
  | some e =>
    constructor
    · intro hg
      simp at hg
    · intro g hg
      obtain rfl : e = g := by simpa using hg
      have hfalls : Text.FallsOn (l :: ls) e 0 e := Text.fallsOn_zero (Region.endAt?_le hstart h)
      refine ⟨⟨0, e, hfalls⟩, ?_, ?_⟩
      · intro e' he'
        rw [(hfalls.eq he').2]
      · intro j' e' he'
        cases (hfalls.eq he').1

theorem classifyLines_eq_endAt?_joinLines_escaped :
    let r : Region := ⟨['b'], ['<', '<'], ['>', '>'], some '\\', .string, ⟨2, by decide⟩,
      by decide, by decide⟩
    let lexicon : Lexicon := { rules := Zig.language.lexicon.rules ++ [.region r] }
    let l : Text := ['x', '<', '<', '\\']
    let ls : List Text := [['é', '\\', '>', '>'], [], ['>', '\\'], ['>', '>', 'é']]
    r.endAt? (Text.joinLines (l :: ls)) 3 = some 17 ∧ Text.FallsOn (l :: ls) 17 4 2 ∧
      r.endAt? l 3 = none ∧
      ∃ c, lexicon.classifyLines (.inside r.id) ls = .ok ((ls.take 3).map r.carried ++ [c]) ∧
        c.spans.head? = some ⟨0, 2, .string⟩ := by
  intro r lexicon l ls
  have hmem : .region r ∈ lexicon.rules := List.mem_append_right _ List.mem_cons_self
  have hg : r.endAt? (Text.joinLines (l :: ls)) 3 = some 17 := by decide
  have hfalls : Text.FallsOn (l :: ls) 17 4 2 := ⟨['>', '>', 'é'], rfl, by decide, by decide⟩
  have hfree : Text.NewlineFree (l :: ls) := by decide
  have hstart : l.IsBoundary 3 := by decide
  have hall := classifyLines_eq_endAt?_joinLines hmem (by decide) (by decide) (by decide) hfree
    hstart
  exact ⟨hg, hfalls, (hall.2 17 hg).2.2 3 2 hfalls⟩

end Lexicon

end Highlight
