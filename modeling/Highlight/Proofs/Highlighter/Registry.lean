import Highlight.Highlighter
import Highlight.Proofs.LineCache.Coherence

/-!
# The registry of a highlighter

Every registration of a language has a stamp that no other one ever gets, and every cache
belongs to the registration that stands under its language's name now (`Consistent`).
These facts are established when a highlighter is made and kept by everything that can be
done with it (`Reachable.consistent`), so that equal stamps mean one and the same
language. A hook that uses the cache of a buffer is described once for all hooks, by
`withCache_of_eligible` and `withCache_of_not_eligible`, and what becomes of the other caches
by `get?_caches_withCache_cases`.
-/

namespace Highlight.Highlighter

structure Consistent (h : Highlighter) : Prop where
  named : ∀ {n r}, h.languages.get? n = some r → r.language.name = n
  stamp_lt : ∀ {n r}, h.languages.get? n = some r → r.stamp < h.nextStamp
  stamp_inj : ∀ {n m r s}, h.languages.get? n = some r → h.languages.get? m = some s →
    r.stamp = s.stamp → n = m
  current : ∀ {id c}, h.caches.get? id = some c →
    h.languages.get? c.cache.language.name = some ⟨c.stamp, c.cache.language⟩

theorem registered_of_registration? {h : Highlighter} {filetype : Text} {r : Registration}
    (hr : h.registration? filetype = some r) : ∃ n, h.languages.get? n = some r := by
  obtain ⟨n, -, hn⟩ := Option.bind_eq_some_iff.1 hr
  exact ⟨n, hn⟩

theorem eligible?_eq_some_iff {h : Highlighter} {b : Buffer} {r : Registration} :
    h.eligible? b = some r ↔
      (h.enabled ∧ b.kind = .file) ∧ b.filetype.bind h.registration? = some r := by
  unfold eligible?
  split
  · next hc => simp only [hc, and_self, true_and]
  · next hc => simp only [hc, false_and, reduceCtorEq]

theorem eligible?_congr {h : Highlighter} {b b' : Buffer} (hkind : b'.kind = b.kind)
    (hfiletype : b'.filetype = b.filetype) : h.eligible? b' = h.eligible? b := by
  rw [eligible?, eligible?, hkind, hfiletype]

theorem registered_of_eligible? {h : Highlighter} {b : Buffer} {r : Registration}
    (hr : h.eligible? b = some r) : ∃ n, h.languages.get? n = some r := by
  obtain ⟨-, hf⟩ := eligible?_eq_some_iff.1 hr
  obtain ⟨filetype, -, hr⟩ := Option.bind_eq_some_iff.1 hf
  exact registered_of_registration? hr

theorem cacheFor_cases (h : Highlighter) (id : Nat) (r : Registration) :
    h.cacheFor id r = ⟨r.stamp, { language := r.language }⟩ ∨
      h.caches.get? id = some (h.cacheFor id r) ∧ (h.cacheFor id r).stamp = r.stamp := by
  unfold cacheFor
  split
  · next c hc =>
    by_cases hs : c.stamp = r.stamp
    · rw [if_pos hs]
      exact Or.inr ⟨hc, hs⟩
    · rw [if_neg hs]
      exact Or.inl rfl
  · exact Or.inl rfl

theorem stamp_cacheFor (h : Highlighter) (id : Nat) (r : Registration) :
    (h.cacheFor id r).stamp = r.stamp := by
  rcases h.cacheFor_cases id r with hc | ⟨-, hs⟩
  · rw [hc]
  · exact hs

theorem Consistent.language_cacheFor {h : Highlighter} (hc : h.Consistent) {n : Text}
    {r : Registration} (hr : h.languages.get? n = some r) (id : Nat) :
    (h.cacheFor id r).cache.language = r.language := by
  rcases h.cacheFor_cases id r with he | ⟨hid, hs⟩
  · rw [he]
  · have hcur := hc.current hid
    have hn := hc.stamp_inj hcur hr hs
    rw [hn, hr, Option.some.injEq] at hcur
    exact (congrArg Registration.language hcur).symm

section Use

variable {α : Type} {h : Highlighter} {id : Nat} {b : Buffer} {r : Registration}
  {use : Buffer → LineCache → α × LineCache}

theorem withCache_of_eligible (hr : h.eligible? b = some r) :
    h.withCache id (some b) use =
      (some (use b (h.cacheFor id r).cache).1,
        { h with
          caches := h.caches.insert id ⟨r.stamp, (use b (h.cacheFor id r).cache).2⟩ }) := by
  simp only [withCache, hr, ← stamp_cacheFor h id r]

theorem withCache_of_not_eligible (hr : h.eligible? b = none) :
    h.withCache id (some b) use = (none, h) := by
  simp only [withCache, hr]

theorem withCache_frame (h : Highlighter) (id : Nat) (b : Option Buffer)
    (use : Buffer → LineCache → α × LineCache) :
    (h.withCache id b use).2 = { h with caches := (h.withCache id b use).2.caches } := by
  cases b with
  | none => rfl
  | some b =>
    cases hr : h.eligible? b with
    | none => rw [withCache_of_not_eligible hr]
    | some r => rw [withCache_of_eligible hr]

theorem get?_caches_withCache (hr : h.eligible? b = some r) :
    (h.withCache id (some b) use).2.caches.get? id =
      some ⟨r.stamp, (use b (h.cacheFor id r).cache).2⟩ := by
  rw [withCache_of_eligible hr, Table.get?_insert, if_pos rfl]

theorem get?_caches_withCache_of_ne {id' : Nat} (hne : id ≠ id') (h : Highlighter)
    (b : Option Buffer) (use : Buffer → LineCache → α × LineCache) :
    (h.withCache id b use).2.caches.get? id' = h.caches.get? id' := by
  cases b with
  | none => rfl
  | some b =>
    cases hr : h.eligible? b with
    | none => rw [withCache_of_not_eligible hr]
    | some r => rw [withCache_of_eligible hr, Table.get?_insert, if_neg hne]

theorem get?_caches_withCache_cases {id' : Nat} {b' : Option Buffer} {c : BufferCache}
    (hid : (h.withCache id b' use).2.caches.get? id' = some c) :
    h.caches.get? id' = some c ∨ ∃ b r, id = id' ∧ b' = some b ∧ h.eligible? b = some r ∧
      c = ⟨r.stamp, (use b (h.cacheFor id r).cache).2⟩ := by
  by_cases heq : id = id'
  · subst heq
    cases b' with
    | none => exact .inl hid
    | some b =>
      cases hr : h.eligible? b with
      | none =>
        rw [withCache_of_not_eligible hr] at hid
        exact .inl hid
      | some r =>
        rw [get?_caches_withCache hr] at hid
        exact .inr ⟨b, r, rfl, rfl, hr, (Option.some.inj hid).symm⟩
  · rw [get?_caches_withCache_of_ne heq] at hid
    exact .inl hid

theorem draw_eq_withCache (h : Highlighter) (id : Nat) (b : Option Buffer) (line : Nat)
    (w : Window) :
    (h.draw id b line w).2 =
      (h.withCache id b fun b c => ((), (c.spans b.lines line).2)).2 := by
  unfold draw
  cases b with
  | none => rfl
  | some b =>
    cases hr : h.eligible? b with
    | none => rw [withCache_of_not_eligible hr, withCache_of_not_eligible hr]
    | some r =>
      rw [withCache_of_eligible hr, withCache_of_eligible hr]
      dsimp only
      rcases (h.cacheFor id r).cache.spans b.lines line with ⟨_ | _, c⟩
      · rfl
      · rfl

theorem Consistent.withCache (hc : h.Consistent) (id : Nat) (b : Option Buffer)
    (huse : ∀ b c, (use b c).2.language = c.language) :
    (h.withCache id b use).2.Consistent := by
  have hcurrent : ∀ {id' c}, (h.withCache id b use).2.caches.get? id' = some c →
      h.languages.get? c.cache.language.name = some ⟨c.stamp, c.cache.language⟩ := by
    intro id' c hid
    rcases get?_caches_withCache_cases hid with hid | ⟨b, r, -, -, hr, rfl⟩
    · exact hc.current hid
    · obtain ⟨n, hn⟩ := registered_of_eligible? hr
      have hl := (huse b (h.cacheFor id r).cache).trans (hc.language_cacheFor hn id)
      simp only [hl, hc.named hn, hn]
  rw [withCache_frame]
  exact ⟨hc.named, hc.stamp_lt, hc.stamp_inj, hcurrent⟩

end Use

/-! ## Calls that change more than one cache -/

section Calls

variable {h : Highlighter} {id id' : Nat} {c : BufferCache} {l : Language}

theorem get?_languages_addLanguage (h : Highlighter) (l : Language) (n : Text) :
    (h.addLanguage l).languages.get? n =
      if l.name = n then some ⟨h.nextStamp, l⟩ else h.languages.get? n :=
  Table.get?_insert _ _ _ _

theorem get?_caches_addLanguage_eq_some_iff : (h.addLanguage l).caches.get? id = some c ↔
    h.caches.get? id = some c ∧ c.cache.language.name ≠ l.name := by
  rw [addLanguage, Table.get?_filter, Option.filter_eq_some_iff, decide_eq_true_iff]

theorem get?_caches_removeCache_eq_some_iff : (h.removeCache id').caches.get? id = some c ↔
    id' ≠ id ∧ h.caches.get? id = some c := by
  rw [removeCache, Table.get?_erase]
  split
  · next heq => simp only [reduceCtorEq, heq, ne_eq, not_true_eq_false, false_and]
  · next hne => simp only [ne_eq, hne, not_false_eq_true, true_and]

theorem exists_get?_of_get?_caches_toggle (hid : h.toggle.caches.get? id = some c) :
    ∃ d, h.caches.get? id = some d ∧
      c = if h.enabled then { d with cache := d.cache.invalidateAll } else d := by
  unfold toggle at hid
  dsimp only at hid
  split at hid
  · next hon =>
    rw [Table.get?_mapValues] at hid
    obtain ⟨d, hd, rfl⟩ := Option.map_eq_some_iff.1 hid
    exact ⟨d, hd, (if_pos hon).symm⟩
  · next hoff => exact ⟨c, hid, (if_neg hoff).symm⟩

end Calls

theorem consistent_empty : Consistent {} := by
  refine ⟨?_, ?_, ?_, ?_⟩
  · intro n r hr
    cases hr
  · intro n r hr
    cases hr
  · intro n m r s hr
    cases hr
  · intro id c hc
    cases hc

namespace Consistent

variable {h g : Highlighter}

theorem congr (hc : h.Consistent) (hlanguages : g.languages = h.languages)
    (hcaches : g.caches = h.caches) (hstamp : g.nextStamp = h.nextStamp) : g.Consistent := by
  refine ⟨?_, ?_, ?_, ?_⟩
  · rw [hlanguages]
    exact hc.named
  · rw [hlanguages, hstamp]
    exact hc.stamp_lt
  · rw [hlanguages]
    exact hc.stamp_inj
  · rw [hlanguages, hcaches]
    exact hc.current

theorem addLanguage (hc : h.Consistent) (l : Language) : (h.addLanguage l).Consistent := by
  have hold : ∀ {n r}, l.name ≠ n → (h.addLanguage l).languages.get? n = some r →
      h.languages.get? n = some r := by
    intro n r hn hr
    rwa [get?_languages_addLanguage, if_neg hn] at hr
  have hnew : (h.addLanguage l).languages.get? l.name = some ⟨h.nextStamp, l⟩ := by
    rw [get?_languages_addLanguage, if_pos rfl]
  refine ⟨?_, ?_, ?_, ?_⟩
  · intro n r hr
    by_cases hn : l.name = n
    · subst hn
      cases hnew.symm.trans hr
      rfl
    · exact hc.named (hold hn hr)
  · intro n r hr
    by_cases hn : l.name = n
    · subst hn
      cases hnew.symm.trans hr
      exact Nat.lt_succ_self _
    · exact Nat.lt_succ_of_lt (hc.stamp_lt (hold hn hr))
  · intro n m r s hr hs hst
    by_cases hn : l.name = n
    · subst hn
      cases hnew.symm.trans hr
      by_cases hm : l.name = m
      · exact hm
      · have hlt := hc.stamp_lt (hold hm hs)
        exact absurd hst (Nat.ne_of_gt hlt)
    · by_cases hm : l.name = m
      · subst hm
        cases hnew.symm.trans hs
        have hlt := hc.stamp_lt (hold hn hr)
        exact absurd hst (Nat.ne_of_lt hlt)
      · exact hc.stamp_inj (hold hn hr) (hold hm hs) hst
  · intro id c hid
    obtain ⟨hid, hne⟩ := get?_caches_addLanguage_eq_some_iff.1 hid
    rw [get?_languages_addLanguage, if_neg hne.symm]
    exact hc.current hid

theorem toggle (hc : h.Consistent) : h.toggle.Consistent := by
  refine ⟨hc.named, hc.stamp_lt, hc.stamp_inj, ?_⟩
  intro id c hid
  obtain ⟨d, hd, rfl⟩ := exists_get?_of_get?_caches_toggle hid
  have hcurrent := hc.current hd
  split <;> exact hcurrent

theorem unload (hc : h.Consistent) : h.unload.Consistent := by
  refine ⟨hc.named, hc.stamp_lt, hc.stamp_inj, ?_⟩
  intro id c hid
  cases hid

theorem removeCache (hc : h.Consistent) (id : Nat) : (h.removeCache id).Consistent := by
  refine ⟨hc.named, hc.stamp_lt, hc.stamp_inj, ?_⟩
  intro id' c hid
  exact hc.current (get?_caches_removeCache_eq_some_iff.1 hid).2

theorem prepare (hc : h.Consistent) (id : Nat) (b : Option Buffer) (start stop : Nat) :
    (h.prepare id b start stop).Consistent := by
  refine hc.withCache id b ?_
  intro b c
  dsimp only
  split
  · exact LineCache.language_spans _ _ _
  · rfl

theorem draw (hc : h.Consistent) (id : Nat) (b : Option Buffer) (line : Nat) (w : Window) :
    (h.draw id b line w).2.Consistent := by
  rw [draw_eq_withCache]
  exact hc.withCache id b fun b c => c.language_spans b.lines line

theorem announce (hc : h.Consistent) (id : Nat) (b : Option Buffer) (e : LineEdit) :
    (h.announce id b e).Consistent :=
  hc.withCache id b fun b c => c.language_announce b.lines e

theorem report (hc : h.Consistent) (id : Nat) (b : Option Buffer) (e : LineEdit) :
    (h.report id b e).Consistent :=
  hc.withCache id b fun b c => c.language_report b.lines e

end Consistent

/-- The highlighters that can be made, and what can be made of them by calls in any order
with any buffers. -/
inductive Reachable : Highlighter → Prop
  | standard : Reachable standard
  | ofSettings (s : Settings) (width : Char → Nat) : Reachable (ofSettings s width)
  | addLanguage {h : Highlighter} (l : Language) : Reachable h → Reachable (h.addLanguage l)
  | addFiletype {h : Highlighter} (filetype language : Text) :
      Reachable h → Reachable (h.addFiletype filetype language)
  | toggle {h : Highlighter} : Reachable h → Reachable h.toggle
  | unload {h : Highlighter} : Reachable h → Reachable h.unload
  | removeCache {h : Highlighter} (id : Nat) : Reachable h → Reachable (h.removeCache id)
  | enable {h : Highlighter} (on : Bool) : Reachable h → Reachable { h with enabled := on }
  | takeRedraw {h : Highlighter} : Reachable h → Reachable h.takeRedraw.2
  | prepare {h : Highlighter} (id : Nat) (b : Option Buffer) (start stop : Nat) :
      Reachable h → Reachable (h.prepare id b start stop)
  | draw {h : Highlighter} (id : Nat) (b : Option Buffer) (line : Nat) (w : Window) :
      Reachable h → Reachable (h.draw id b line w).2
  | announce {h : Highlighter} (id : Nat) (b : Option Buffer) (e : LineEdit) :
      Reachable h → Reachable (h.announce id b e)
  | report {h : Highlighter} (id : Nat) (b : Option Buffer) (e : LineEdit) :
      Reachable h → Reachable (h.report id b e)

theorem Reachable.consistent {h : Highlighter} (hr : h.Reachable) : h.Consistent := by
  have hstandard : Highlighter.standard.Consistent := consistent_empty.addLanguage _
  induction hr with
  | standard => exact hstandard
  | ofSettings s width =>
    have hset : Consistent { Highlighter.standard with
        enabled := s.enabled, metrics := .ofTabWidth s.tabWidth width } :=
      hstandard.congr rfl rfl rfl
    exact (hset.addLanguage (Zig.language.addKeywords s.extraKeywords)).congr rfl rfl rfl
  | addLanguage l _ ih => exact ih.addLanguage l
  | addFiletype filetype language _ ih => exact ih.congr rfl rfl rfl
  | toggle _ ih => exact ih.toggle
  | unload _ ih => exact ih.unload
  | removeCache id _ ih => exact ih.removeCache id
  | enable on _ ih => exact ih.congr rfl rfl rfl
  | takeRedraw _ ih => exact ih.congr rfl rfl rfl
  | prepare id b start stop _ ih => exact ih.prepare id b start stop
  | draw id b line w _ ih => exact ih.draw id b line w
  | announce id b e _ ih => exact ih.announce id b e
  | report id b e _ ih => exact ih.report id b e

end Highlight.Highlighter
