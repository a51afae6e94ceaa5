import Highlight.Proofs.Lexicon.States
import Highlight.Proofs.LineCache.Stepwise

/-!
# Lines that are accepted

Of the lines of a document only those with a newline are ever rejected. The first line begins in
the normal state, each other one in the state that the line before it leaves, and a rejected line
leaves its own state as it was: no line comes to begin in a state that the rules do not know
(`knownTo_recordsFrom`). So the two causes of an error come down to one, in a document that is
classified from scratch and in every cache of it.
-/

namespace Highlight

namespace Language

variable {l : Language} {state : LineState} {ts : List Text} {r : LineRecord} {n : Nat}

theorem getElem?_recordsFrom (h : (l.recordsFrom state ts)[n]? = some r) :
    ∃ t, ts[n]? = some t ∧ r = l.record r.before t := by
  induction ts generalizing state n with
  | nil => cases h
  | cons t ts ih =>
    cases n with
    | zero =>
      cases h
      exact ⟨t, rfl, by rw [record_before]⟩
    | succ n => exact ih h

theorem knownTo_recordsFrom (hstate : state.KnownTo l.lexicon.rules)
    (h : r ∈ l.recordsFrom state ts) : r.before.KnownTo l.lexicon.rules := by
  induction ts generalizing state with
  | nil => cases h
  | cons t ts ih =>
    rcases List.mem_cons.1 h with rfl | h
    · rwa [record_before]
    · exact ih (knownTo_record hstate t) h

theorem classify_error_iff_of_knownTo (hstate : state.KnownTo l.lexicon.rules) (t : Text) :
    (∃ e, l.classify state t = .error e) ↔ '\n' ∈ t := by
  constructor
  · rintro ⟨⟨name, cause⟩, he⟩
    cases (classify_eq_error_iff.1 he).2 with
    | lineBreak ht => exact ht
    | unknownRegion _ _ hunknown => exact absurd hstate hunknown
  · intro ht
    exact ⟨_, classify_eq_error_iff.2 ⟨rfl, .lineBreak ht⟩⟩

end Language

theorem LineCache.Coherent.classify_error_iff {c : LineCache} {source : List Text} {n : Nat}
    {r : LineRecord} (h : c.Coherent source) (hr : c.lines[n]? = some r) :
    ∃ t, source[n]? = some t ∧ r = c.language.record r.before t ∧
      ((∃ e, c.language.classify r.before t = .error e) ↔ '\n' ∈ t) := by
  rw [h.1, List.getElem?_take] at hr
  split at hr
  · obtain ⟨t, ht, hrecord⟩ := Language.getElem?_recordsFrom hr
    have hnormal : LineState.normal.KnownTo c.language.lexicon.rules := trivial
    have hknown := Language.knownTo_recordsFrom hnormal (List.mem_of_getElem? hr)
    exact ⟨t, ht, hrecord, Language.classify_error_iff_of_knownTo hknown t⟩
  · cases hr

/-- Errors and carried states are closed. A line fails exactly if it holds a newline or begins in
a state that no region has. What it leaves is known to the rules again, with the open region as
its last span. So lines without newlines never fail one after the other, and in a cache that has
been read and edited in whatever way, a line was rejected exactly if it holds a newline. -/
theorem Language.states_closed (l : Language) :
    (∀ state t, (∃ e, l.lexicon.classify state t = .error e) ↔
      '\n' ∈ t ∨ ∃ id, state = .inside id ∧ ∀ r, .region r ∈ l.lexicon.rules → r.id ≠ id) ∧
    (∀ state t c, l.lexicon.classify state t = .ok c → c.LeavesKnown l.lexicon.rules t) ∧
    (∀ ts, Text.NewlineFree ts → ∃ state,
      ts.foldlM (fun s t => (l.classify s t).map ClassifiedLine.after) .normal = .ok state) ∧
    ∀ (source : List Text) (calls : List CacheCall) (s : CacheSession),
      CacheSession.Runs (.start l source) calls s →
      (∀ n < s.source.length, n < (s.perform (.read n)).cache.lines.length) ∧
      ∀ (n : Nat) (r : LineRecord), s.cache.lines[n]? = some r → ∃ t, s.source[n]? = some t ∧
        r = l.record r.before t ∧ ((∃ e, l.classify r.before t = .error e) ↔ '\n' ∈ t) := by
  refine ⟨fun _ _ => Lexicon.exists_classify_eq_error_iff,
    fun _ _ _ hc => Lexicon.classify_leaves hc, ?_, ?_⟩
  · intro ts hts
    have hnormal : LineState.normal.KnownTo l.lexicon.rules := trivial
    obtain ⟨state, hfold, -⟩ := Language.foldlM_classify hnormal hts
    exact ⟨state, hfold⟩
  · intro source calls s hs
    have hl : s.cache.language = l := hs.language_eq
    have hcoherent : s.cache.Coherent s.source :=
      hs.coherent (LineCache.coherent_of_lines_eq_nil rfl)
    constructor
    · intro n hn
      rw [CacheSession.perform, LineCache.spans_of_lt hn]
      exact s.cache.lt_length_extendTo hn
    · intro n r hr
      rw [← hl]
      exact hcoherent.classify_error_iff hr

theorem Language.states_closed_rejected :
    let t : Text := ['a', '\n', '*', '/']
    let s := (CacheSession.start Zig.language [['/', '*'], t, ['i', 'f']]).perform (.read 2)
    let r : LineRecord := ⟨[], .inside Zig.blockComment.id, .inside Zig.blockComment.id⟩
    2 < s.cache.lines.length ∧ s.cache.lines[1]? = some r ∧ r = Zig.language.record r.before t ∧
      (∃ e, Zig.language.classify r.before t = .error e) ∧
      s.cache.lines[2]? = some ⟨[⟨0, 2, .comment⟩], r.after, r.after⟩ := by
  intro t s r
  obtain ⟨-, -, -, hcache⟩ := Language.states_closed Zig.language
  have hruns : CacheSession.Runs (.start Zig.language s.source) [.read 2] s :=
    .cons trivial (.nil s)
  have hlength : 2 < s.cache.lines.length := (hcache _ [] _ (.nil _)).1 2 (by decide)
  have hr : s.cache.lines[1]? = some r := by decide +kernel
  obtain ⟨_, ht, hrecord, hrejected⟩ := (hcache _ _ _ hruns).2 1 r hr
  cases ht
  exact ⟨hlength, hr, hrecord, hrejected.2 (by decide), by decide +kernel⟩

end Highlight
