import Highlight.Language
import Highlight.Proofs.Lexicon.Places

/-!
# Carried states

The state that one line leaves is the state that the next one begins in. The rules know a state
if it is normal or the name of one of their regions. A line is classified exactly if it begins in
such a state and holds no newline (`classify_eq_error_iff`), and it leaves such a state again
(`classify_leaves`), with the open region as its last span. So lines without newlines never fail,
however many of them follow one another (`foldlM_classify`).
-/

namespace Highlight

def LineState.KnownTo (rules : List Rule) : LineState → Prop
  | .normal => True
  | .inside id => ∃ r, .region r ∈ rules ∧ r.id = id

theorem isSome_findRegion?_iff {rules : List Rule} {id : RegionId} :
    (findRegion? rules id).isSome ↔ (LineState.inside id).KnownTo rules := by
  constructor
  · intro h
    obtain ⟨r, hr⟩ := Option.isSome_iff_exists.1 h
    exact ⟨r, Lexicon.region_of_findRegion? hr⟩
  · rintro ⟨r, hr, hid⟩
    refine List.findSome?_isSome_iff.2 ⟨.region r, hr, ?_⟩
    dsimp only
    rw [if_pos hid]
    rfl

inductive LineError.Arises (rules : List Rule) (before : LineState) (t : Text) : LineError → Prop
  | lineBreak (ht : '\n' ∈ t) : Arises rules before t .lineBreak
  | unknownRegion {id : RegionId} (ht : '\n' ∉ t) (hbefore : before = .inside id)
      (hid : ¬ before.KnownTo rules) : Arises rules before t (.unknownRegion id)

/-- If a line leaves a region open, then the rules have a region of that name, and unless the line
is empty its last span is that region and reaches to its end. -/
def ClassifiedLine.LeavesKnown (rules : List Rule) (t : Text) (c : ClassifiedLine) : Prop :=
  ∀ id, c.after = .inside id → ∃ r, .region r ∈ rules ∧ r.id = id ∧
    (t ≠ [] → ∃ start, c.spans.getLast? = some ⟨start, t.byteSize, r.category⟩)

theorem ClassifiedLine.LeavesKnown.knownTo {rules : List Rule} {t : Text} {c : ClassifiedLine}
    (h : c.LeavesKnown rules t) : c.after.KnownTo rules := by
  cases hafter : c.after with
  | normal => trivial
  | inside id =>
    obtain ⟨r, hr, hid, -⟩ := h id hafter
    exact ⟨r, hr, hid⟩

namespace Lexeme

variable {ls : List Lexeme} {l : Lexeme} {c : Category} {id : RegionId}

theorem exists_unclosed_of_stateAfter (h : stateAfter ls = .inside id) :
    ∃ l c, ls.getLast? = some l ∧ l.verdict = .unclosed c id := by
  unfold stateAfter at h
  cases hlast : ls.getLast? with
  | none =>
    rw [hlast] at h
    cases h
  | some l =>
    rw [hlast] at h
    dsimp only at h
    cases hv : l.verdict with
    | unclosed c id' =>
      rw [hv] at h
      cases h
      exact ⟨l, c, rfl, hv⟩
    | plain =>
      rw [hv] at h
      cases h
    | span c =>
      rw [hv] at h
      cases h

theorem getLast?_spansFrom (hl : ls.getLast? = some l) (hc : l.verdict.category? = some c) :
    ∃ start, (spansFrom 0 ls).getLast? =
      some ⟨start, Text.byteSize (ls.map piece).flatten, c⟩ := by
  obtain ⟨init, rfl⟩ := List.getLast?_eq_some_iff.1 hl
  refine ⟨Text.byteSize (init.map piece).flatten, ?_⟩
  rw [spansFrom_append, spansFrom_cons, span?, hc, List.map_append, List.flatten_append,
    Text.byteSize_append, List.map_singleton, List.flatten_singleton, Nat.zero_add]
  exact List.getLast?_concat

end Lexeme

theorem Step.region_of_unclosed {rules : List Rule} {t : Text} {s : Step} {c : Category}
    {id : RegionId} (h : region? rules t = some s) (hv : s.verdict = .unclosed c id) :
    ∃ r, .region r ∈ rules ∧ r.id = id ∧ r.category = c := by
  obtain ⟨rule, hrule, hs⟩ := List.exists_of_findSome?_eq_some h
  cases rule with
  | region r =>
    simp only at hs
    split at hs
    · cases hs
    · split at hs
      · cases hs
        cases hv
      · cases hs
        cases hv
        exact ⟨r, hrule, rfl, rfl⟩
  | _ => cases hs

namespace Lexicon

variable {lexicon : Lexicon} {previous : Option Char} {before : LineState} {t : Text}
  {x : LexedLine} {l : Lexeme} {c : Category} {id : RegionId}

theorem region_of_mem_scan (h : l ∈ lexicon.scan previous t) (hv : l.verdict = .unclosed c id) :
    ∃ r, .region r ∈ lexicon.rules ∧ r.id = id ∧ r.category = c := by
  fun_induction scan lexicon previous t with
  | case1 => cases h
  | case2 previous d t s piece ih =>
    rcases List.mem_cons.1 h with rfl | h
    · exact Step.region_of_unclosed (region?_of_unclosed hv) hv
    · exact ih h

theorem exists_region_of_scan (hopen : Lexeme.stateAfter (lexicon.scan previous t) = .inside id) :
    ∃ r l, .region r ∈ lexicon.rules ∧ r.id = id ∧ (lexicon.scan previous t).getLast? = some l ∧
      l.verdict.category? = some r.category := by
  obtain ⟨l, c, hlast, hv⟩ := Lexeme.exists_unclosed_of_stateAfter hopen
  obtain ⟨r, hr, hid, rfl⟩ := region_of_mem_scan (List.mem_of_getLast? hlast) hv
  exact ⟨r, l, hr, hid, hlast, by rw [hv]; rfl⟩

theorem exists_region_of_lex (hx : lexicon.lex before t = .ok x) (hafter : x.after = .inside id) :
    ∃ r, .region r ∈ lexicon.rules ∧ r.id = id ∧
      (t ≠ [] → ∃ l, x.lexemes.getLast? = some l ∧ l.verdict.category? = some r.category) := by
  unfold lex at hx
  split at hx
  · cases hx
  · split at hx
    · cases hx
      obtain ⟨r, l, hr, hid, hlast, hc⟩ := exists_region_of_scan hafter
      exact ⟨r, hr, hid, fun _ => ⟨l, hlast, hc⟩⟩
    · split at hx
      · cases hx
      · next id' m hm =>
        split at hx
        · cases hx
          rw [Lexeme.stateAfter_cons rfl] at hafter
          obtain ⟨r, l, hr, hid, hlast, hc⟩ := exists_region_of_scan hafter
          refine ⟨r, hr, hid, fun _ => ⟨l, ?_, hc⟩⟩
          rw [List.getLast?_cons, hlast]
          rfl
        · cases hx
          cases hafter
          obtain ⟨hmem, hid⟩ := region_of_findRegion? hm
          refine ⟨m, hmem, hid, ?_⟩
          intro ht
          rw [if_neg ht]
          exact ⟨_, rfl, rfl⟩

theorem classify_leaves {c : ClassifiedLine} (hc : lexicon.classify before t = .ok c) :
    c.LeavesKnown lexicon.rules t := by
  cases hx : lexicon.lex before t with
  | error e =>
    rw [classify, hx] at hc
    cases hc
  | ok x =>
    rw [classify_eq_ok hx] at hc
    cases hc
    intro id hafter
    obtain ⟨r, hr, hid, hlast⟩ := exists_region_of_lex hx hafter
    refine ⟨r, hr, hid, ?_⟩
    intro ht
    obtain ⟨l, hl, hcategory⟩ := hlast ht
    rw [← (pieces_lex hx).1]
    exact Lexeme.getLast?_spansFrom hl hcategory

theorem exists_classify_eq_ok (ht : '\n' ∉ t) (hbefore : before.KnownTo lexicon.rules) :
    ∃ c, lexicon.classify before t = .ok c := by
  have hregion (id : RegionId) (hid : before = .inside id) :
      (findRegion? lexicon.rules id).isSome := by
    rw [isSome_findRegion?_iff, ← hid]
    exact hbefore
  obtain ⟨x, hx⟩ := lexicon.exists_lex_eq_ok ht hregion
  exact ⟨_, classify_eq_ok hx⟩

theorem classify_eq_error_iff {e : LineError} :
    lexicon.classify before t = .error e ↔ e.Arises lexicon.rules before t := by
  have hlineBreak (ht : '\n' ∈ t) : lexicon.classify before t = .error .lineBreak := by
    unfold classify lex
    rw [if_pos ht]
    rfl
  have hunknown {id : RegionId} (ht : '\n' ∉ t)
      (hid : ¬ (LineState.inside id).KnownTo lexicon.rules) :
      lexicon.classify (.inside id) t = .error (.unknownRegion id) := by
    rw [← isSome_findRegion?_iff, Option.not_isSome_iff_eq_none] at hid
    unfold classify lex
    rw [if_neg ht]
    dsimp only
    rw [hid]
    rfl
  constructor
  · intro h
    by_cases ht : '\n' ∈ t
    · cases (hlineBreak ht).symm.trans h
      exact .lineBreak ht
    · by_cases hbefore : before.KnownTo lexicon.rules
      · obtain ⟨c, hc⟩ := exists_classify_eq_ok ht hbefore
        cases hc.symm.trans h
      · cases before with
        | normal => exact absurd trivial hbefore
        | inside id =>
          cases (hunknown ht hbefore).symm.trans h
          exact .unknownRegion ht rfl hbefore
  · intro h
    cases h with
    | lineBreak ht => exact hlineBreak ht
    | unknownRegion ht hbefore hid =>
      subst hbefore
      exact hunknown ht hid

theorem exists_classify_eq_error_iff :
    (∃ e, lexicon.classify before t = .error e) ↔
      '\n' ∈ t ∨ ∃ id, before = .inside id ∧ ∀ r, .region r ∈ lexicon.rules → r.id ≠ id := by
  constructor
  · rintro ⟨e, he⟩
    cases classify_eq_error_iff.1 he with
    | lineBreak ht => exact .inl ht
    | @unknownRegion id _ hbefore hunknown =>
      subst hbefore
      exact .inr ⟨id, rfl, fun r hr hid => hunknown ⟨r, hr, hid⟩⟩
  · intro h
    by_cases ht : '\n' ∈ t
    · exact ⟨_, classify_eq_error_iff.2 (.lineBreak ht)⟩
    · obtain ⟨id, rfl, hid⟩ := h.resolve_left ht
      refine ⟨_, classify_eq_error_iff.2 (.unknownRegion ht rfl ?_)⟩
      rintro ⟨r, hr, hrid⟩
      exact hid r hr hrid

end Lexicon

namespace Language

variable {l : Language} {state : LineState}

theorem classify_eq_error_iff {t : Text} {name : Text} {e : LineError} :
    l.classify state t = .error ⟨name, e⟩ ↔ l.name = name ∧ e.Arises l.lexicon.rules state t := by
  rw [← Lexicon.classify_eq_error_iff, classify]
  cases l.lexicon.classify state t with
  | ok c => exact ⟨nofun, nofun⟩
  | error e' =>
    change Except.error (Rejection.mk l.name e') = _ ↔ _
    simp only [Except.error.injEq, Rejection.mk.injEq]

theorem foldlM_classify (hstate : state.KnownTo l.lexicon.rules) {ts : List Text}
    (hts : Text.NewlineFree ts) :
    ∃ state', ts.foldlM (fun s t => (l.classify s t).map ClassifiedLine.after) state = .ok state' ∧
      state'.KnownTo l.lexicon.rules := by
  induction ts generalizing state with
  | nil => exact ⟨state, rfl, hstate⟩
  | cons t ts ih =>
    obtain ⟨ht, hts⟩ := Text.newlineFree_cons.1 hts
    obtain ⟨c, hc⟩ := Lexicon.exists_classify_eq_ok ht hstate
    obtain ⟨state', hfold, hknown⟩ := ih (Lexicon.classify_leaves hc).knownTo hts
    refine ⟨state', ?_, hknown⟩
    rw [List.foldlM_cons, classify, hc]
    exact hfold

theorem record_of_ok {t : Text} {c : ClassifiedLine} (hc : l.lexicon.classify state t = .ok c) :
    l.record state t = ⟨c.spans, state, c.after⟩ := by
  rw [record, classify, hc]
  rfl

theorem record_of_error {t : Text} {e : LineError} (he : l.lexicon.classify state t = .error e) :
    l.record state t = ⟨[], state, state⟩ := by
  rw [record, classify, he]
  rfl

theorem knownTo_record (hstate : state.KnownTo l.lexicon.rules) (t : Text) :
    (l.record state t).after.KnownTo l.lexicon.rules := by
  cases hc : l.lexicon.classify state t with
  | ok c =>
    rw [record_of_ok hc]
    exact (Lexicon.classify_leaves hc).knownTo
  | error e => rwa [record_of_error hc]

end Language

end Highlight
