import Highlight.Proofs.Highlighter.Redraw
import Highlight.Proofs.LineCache.Acceptance
import Mathlib.Logic.Relation

/-!
# Languages that are replaced

A language that is registered takes the place of the one that has its name, and what was made with
that one goes with it. In every highlighter that can be reached the languages stand under their own
names (`Consistent`), the extensions of files lead to languages that are there, and the records of
a cache are made by its own language (`WellKept`), which is the one that is registered now. Stamps
are given out in order and never twice, so that the registrations of later on are those that are
left and new ones (`Follows`): a registration that was replaced has no cache from then on
(`stamp_ne_of_replaced`). All that a hook does is to use the cache of its buffer
(`exists_use_of_hooked?`), and no other cache is touched.
-/

namespace Highlight

/-! ## Records of one language -/

namespace Language

def Makes (l : Language) (r : LineRecord) : Prop := ∃ t, r = l.record r.before t

variable {l : Language} {s : LineState} {ts : List Text} {olds : List LineRecord} {r : LineRecord}

theorem makes_record (l : Language) (s : LineState) (t : Text) : l.Makes (l.record s t) :=
  ⟨t, by rw [record_before]⟩

theorem makes_of_mem_recordsFrom (h : r ∈ l.recordsFrom s ts) : l.Makes r := by
  obtain ⟨n, hn⟩ := List.mem_iff_getElem?.1 h
  obtain ⟨t, -, ht⟩ := getElem?_recordsFrom hn
  exact ⟨t, ht⟩

theorem makes_of_mem_settle (holds : ∀ old ∈ olds, l.Makes old)
    (h : r ∈ (l.settle s olds ts).1) : l.Makes r := by
  induction olds generalizing s ts with
  | nil => cases h
  | cons old olds ih =>
    by_cases hs : old.before = s
    · rw [l.settle_of_eq hs] at h
      exact holds r h
    · cases ts with
      | nil =>
        rw [l.settle_nil_of_ne hs] at h
        cases h
      | cons t ts =>
        rw [l.settle_cons_of_ne hs] at h
        rcases List.mem_cons.1 h with rfl | h
        · exact l.makes_record s t
        · exact ih (fun old hold => holds old (List.mem_cons_of_mem _ hold)) h

end Language

namespace LineCache

def Authentic (c : LineCache) : Prop := ∀ r ∈ c.lines, c.language.Makes r

variable {c : LineCache}

theorem authentic_of_lines_eq_nil (h : c.lines = []) : c.Authentic := by
  intro r hr
  rw [h] at hr
  cases hr

theorem Authentic.invalidateFrom (h : c.Authentic) (line : Nat) :
    (c.invalidateFrom line).Authentic :=
  fun r hr => h r (List.mem_of_mem_take hr)

theorem Authentic.spans (h : c.Authentic) (source : List Text) (line : Nat) :
    (c.spans source line).2.Authentic := by
  rcases Nat.lt_or_ge line source.length with hline | hline
  · rw [spans_of_lt hline]
    intro r hr
    rcases List.mem_append.1 hr with hr | hr
    · exact h r (List.mem_of_mem_take hr)
    · exact Language.makes_of_mem_recordsFrom hr
  · rw [spans_of_le hline]
    exact h

theorem Authentic.announce (h : c.Authentic) (source : List Text) (e : LineEdit) :
    (c.announce source e).2.Authentic := by
  unfold Authentic
  rw [c.lines_announce, c.language_announce]
  exact h

theorem Authentic.apply (h : c.Authentic) (source : List Text) (e : LineEdit) :
    (c.apply source e).2.Authentic := by
  unfold LineCache.apply
  split
  · exact h.invalidateFrom e.start
  · split
    · exact h
    · -- A record is one from before the edit, one of its own lines, or one that settled behind it.
      intro r hr
      rcases List.mem_append.1 (List.mem_of_mem_take hr) with hr | hr
      · rcases List.mem_append.1 hr with hr | hr
        · exact h r (List.mem_of_mem_take hr)
        · exact Language.makes_of_mem_recordsFrom hr
      · exact Language.makes_of_mem_settle (fun old hold => h old (List.mem_of_mem_drop hold)) hr

theorem Authentic.report (h : c.Authentic) (source : List Text) (e : LineEdit) :
    (c.report source e).2.Authentic := by
  have hidle : Authentic { c with pending := none } := h
  rcases c.report_cases source e with ⟨hr, -⟩ | hr
  · rw [hr]
    exact hidle.apply source e
  · rw [hr]
    exact hidle.invalidateFrom _

end LineCache

namespace Highlighter

variable {h g k : Highlighter} {id id' : Nat} {b : Buffer} {b' : Option Buffer} {call : Call}
  {r : Registration} {l : Language}

/-! ## Hooks -/

def Call.hooked? : Call → Option (Nat × Option Buffer)
  | .prepare id b _ _ | .draw id b _ _ | .announce id b _ | .report id b _ => some (id, b)
  | _ => none

theorem exists_use_of_hooked? (h : Highlighter) (hcall : call.hooked? = some (id, b')) :
    ∃ use : Buffer → LineCache → Unit × LineCache,
      h.perform call = (h.withCache id b' use).2 ∧
      (∀ b c, (use b c).2.language = c.language) ∧
      ∀ b c, c.Authentic → (use b c).2.Authentic := by
  cases call with
  | prepare _ _ start stop =>
    cases hcall
    refine ⟨_, rfl, fun b c => ?_, fun b c hc => ?_⟩
    · dsimp only
      split
      · exact c.language_spans b.lines _
      · rfl
    · dsimp only
      split
      · exact hc.spans b.lines _
      · exact hc
  | draw _ _ line w =>
    cases hcall
    exact ⟨_, h.draw_eq_withCache id b' line w, fun b c => c.language_spans b.lines line,
      fun b c hc => hc.spans b.lines line⟩
  | announce _ _ e =>
    cases hcall
    exact ⟨_, rfl, fun b c => c.language_announce b.lines e, fun b c hc => hc.announce b.lines e⟩
  | report _ _ e =>
    cases hcall
    exact ⟨_, rfl, fun b c => c.language_report b.lines e, fun b c hc => hc.report b.lines e⟩
  | _ => cases hcall

theorem perform_frame (h : Highlighter) (hcall : call.hooked? = some (id, b')) :
    h.perform call = { h with caches := (h.perform call).caches } := by
  obtain ⟨use, huse, -, -⟩ := h.exists_use_of_hooked? hcall
  rw [huse]
  exact h.withCache_frame id b' use

/-! ## What every call keeps -/

/-- Extensions lead to languages that are there, and records are made by the language of their
cache. -/
structure WellKept (h : Highlighter) : Prop where
  known : ∀ {e n}, h.extensions.get? e = some n → ∃ r, h.languages.get? n = some r
  authentic : ∀ {id c}, h.caches.get? id = some c → c.cache.Authentic

namespace WellKept

theorem authentic_cacheFor (hk : h.WellKept) (id : Nat) (r : Registration) :
    (h.cacheFor id r).cache.Authentic := by
  rcases h.cacheFor_cases id r with he | ⟨hid, -⟩
  · rw [he]
    exact LineCache.authentic_of_lines_eq_nil rfl
  · exact hk.authentic hid

theorem withCache (hk : h.WellKept) {use : Buffer → LineCache → Unit × LineCache}
    (huse : ∀ b c, c.Authentic → (use b c).2.Authentic) (id : Nat) (b' : Option Buffer) :
    (h.withCache id b' use).2.WellKept := by
  have hauthentic : ∀ {id' c}, (h.withCache id b' use).2.caches.get? id' = some c →
      c.cache.Authentic := by
    intro id' c hid
    rcases get?_caches_withCache_cases hid with hid | ⟨b, r, -, -, -, rfl⟩
    · exact hk.authentic hid
    · exact huse b _ (hk.authentic_cacheFor id r)
  rw [withCache_frame]
  exact ⟨hk.known, hauthentic⟩

theorem addLanguage (hk : h.WellKept) (l : Language) : (h.addLanguage l).WellKept := by
  refine ⟨?_, ?_⟩
  · intro e n he
    rw [get?_languages_addLanguage]
    by_cases hn : l.name = n
    · exact ⟨_, if_pos hn⟩
    · rw [if_neg hn]
      rcases Table.mem_or_get?_of_get?_insertAll he with he | he
      · obtain ⟨_, -, heq⟩ := List.mem_map.1 he
        exact absurd (congrArg Prod.snd heq) hn
      · exact hk.known he
  · intro id c hid
    exact hk.authentic (get?_caches_addLanguage_eq_some_iff.1 hid).1

theorem toggle (hk : h.WellKept) : h.toggle.WellKept := by
  refine ⟨hk.known, ?_⟩
  intro id c hid
  obtain ⟨d, hd, rfl⟩ := exists_get?_of_get?_caches_toggle hid
  split
  · exact LineCache.authentic_of_lines_eq_nil rfl
  · exact hk.authentic hd

theorem removeCache (hk : h.WellKept) (id : Nat) : (h.removeCache id).WellKept := by
  refine ⟨hk.known, ?_⟩
  intro id' c hid
  exact hk.authentic (get?_caches_removeCache_eq_some_iff.1 hid).2

theorem perform (hk : h.WellKept) (call : Call) : (h.perform call).WellKept := by
  cases hcall : call.hooked? with
  | some hooked =>
    obtain ⟨use, huse, -, hauthentic⟩ := h.exists_use_of_hooked? hcall
    rw [huse]
    exact hk.withCache hauthentic _ _
  | none =>
    cases call with
    | addLanguage l => exact hk.addLanguage l
    | addFiletype filetype language => exact ⟨hk.known, hk.authentic⟩
    | toggle => exact hk.toggle
    | unload => exact ⟨hk.known, nofun⟩
    | removeCache id => exact hk.removeCache id
    | _ => cases hcall

end WellKept

theorem Reachable.wellKept (hr : h.Reachable) : h.WellKept := by
  have hempty : WellKept {} := ⟨nofun, nofun⟩
  have hstandard : Highlighter.standard.WellKept := hempty.addLanguage _
  induction hr with
  | standard => exact hstandard
  | ofSettings s width =>
    have hset : WellKept { Highlighter.standard with
        enabled := s.enabled, metrics := .ofTabWidth s.tabWidth width } :=
      ⟨hstandard.known, hstandard.authentic⟩
    have hadd := hset.addLanguage (Zig.language.addKeywords s.extraKeywords)
    exact ⟨hadd.known, hadd.authentic⟩
  | addLanguage l _ ih => exact ih.addLanguage l
  | addFiletype filetype language _ ih => exact ⟨ih.known, ih.authentic⟩
  | toggle _ ih => exact ih.toggle
  | unload _ ih => exact ih.perform .unload
  | removeCache id _ ih => exact ih.removeCache id
  | enable on _ ih => exact ⟨ih.known, ih.authentic⟩
  | takeRedraw _ ih => exact ⟨ih.known, ih.authentic⟩
  | prepare id b start stop _ ih => exact ih.perform (.prepare id b start stop)
  | draw id b line w _ ih => exact ih.perform (.draw id b line w)
  | announce id b e _ ih => exact ih.perform (.announce id b e)
  | report id b e _ ih => exact ih.perform (.report id b e)

/-! ## What comes later -/

inductive Step (h : Highlighter) : Highlighter → Prop
  | perform (call : Call) : Step h (h.perform call)
  | enable (on : Bool) : Step h { h with enabled := on }
  | takeRedraw : Step h h.takeRedraw.2

/-- Stamps go up, and what is registered later is left from before or has a new stamp. -/
structure Follows (h g : Highlighter) : Prop where
  nextStamp_le : h.nextStamp ≤ g.nextStamp
  registered : ∀ {n r}, g.languages.get? n = some r →
    h.languages.get? n = some r ∨ h.nextStamp ≤ r.stamp

theorem follows_of_eq (hlanguages : g.languages = h.languages)
    (hstamp : g.nextStamp = h.nextStamp) : h.Follows g := by
  refine ⟨Nat.le_of_eq hstamp.symm, ?_⟩
  intro n r hr
  rw [hlanguages] at hr
  exact .inl hr

theorem Follows.trans (hg : h.Follows g) (hk : g.Follows k) : h.Follows k := by
  refine ⟨Nat.le_trans hg.nextStamp_le hk.nextStamp_le, ?_⟩
  intro n r hr
  rcases hk.registered hr with hr | hle
  · exact hg.registered hr
  · exact .inr (Nat.le_trans hg.nextStamp_le hle)

theorem follows_addLanguage (h : Highlighter) (l : Language) : h.Follows (h.addLanguage l) := by
  refine ⟨Nat.le_succ _, ?_⟩
  intro n r hr
  rw [get?_languages_addLanguage] at hr
  split at hr
  · cases hr
    exact .inr (Nat.le_refl _)
  · exact .inl hr

theorem follows_perform (h : Highlighter) (call : Call) : h.Follows (h.perform call) := by
  cases hcall : call.hooked? with
  | some hooked =>
    rw [h.perform_frame hcall]
    exact follows_of_eq rfl rfl
  | none =>
    cases call with
    | addLanguage l => exact h.follows_addLanguage l
    | addFiletype | toggle | unload | removeCache => exact follows_of_eq rfl rfl
    | _ => cases hcall

theorem Step.follows (hs : h.Step g) : h.Follows g := by
  cases hs with
  | perform call => exact h.follows_perform call
  | enable on => exact follows_of_eq rfl rfl
  | takeRedraw => exact follows_of_eq rfl rfl

theorem Step.consistent (hs : h.Step g) (hc : h.Consistent) : g.Consistent := by
  cases hs with
  | perform call => exact hc.perform call
  | enable on => exact hc.congr rfl rfl rfl
  | takeRedraw => exact hc.congr rfl rfl rfl

theorem consistent_and_follows_of_steps (hs : Relation.ReflTransGen Step h g)
    (hc : h.Consistent) : g.Consistent ∧ h.Follows g := by
  induction hs with
  | refl => exact ⟨hc, follows_of_eq rfl rfl⟩
  | tail _ hstep ih => exact ⟨hstep.consistent ih.1, ih.2.trans hstep.follows⟩

theorem stamp_ne_of_replaced (hc : h.Consistent) (hr : h.languages.get? l.name = some r)
    (hf : (h.addLanguage l).Follows g) {n : Text} {s : Registration}
    (hs : g.languages.get? n = some s) : s.stamp ≠ r.stamp := by
  have hlt := hc.stamp_lt hr
  rcases hf.registered hs with hs | hle
  · -- What is left from before stands under another name, and no two names share a stamp.
    rw [get?_languages_addLanguage] at hs
    split at hs
    · cases hs
      exact Nat.ne_of_gt hlt
    · next hne => exact fun heq => hne (hc.stamp_inj hr hs heq.symm)
  · exact Nat.ne_of_gt (Nat.lt_trans hlt (Nat.lt_of_succ_le hle))

/-- In every highlighter that can be reached each language stands under its own name, with a stamp
of its own, and each extension leads to a language that is there. Each cache belongs to the very
registration that stands under its language's name, by which all its records are made; what was
made with a registration that is replaced never comes back. A hook leaves everything but the cache
of its own buffer, and if the buffer is highlighted that cache belongs to the registration which
its filetype stands for. -/
theorem registry_of_reachable (hr : h.Reachable) :
    (∀ n r, h.languages.get? n = some r →
      r.language.name = n ∧ ∀ m s, h.languages.get? m = some s → s.stamp = r.stamp → m = n) ∧
    (∀ e n, h.extensions.get? e = some n → ∃ r, h.languages.get? n = some r) ∧
    (∀ id c, h.caches.get? id = some c →
      h.languages.get? c.cache.language.name = some ⟨c.stamp, c.cache.language⟩ ∧
        c.cache.Authentic) ∧
    (∀ l r g, h.languages.get? l.name = some r →
      Relation.ReflTransGen Step (h.addLanguage l) g →
        ∀ id c, g.caches.get? id = some c → c.stamp ≠ r.stamp) ∧
    ∀ call id b, call.hooked? = some (id, b) →
      h.perform call = { h with caches := (h.perform call).caches } ∧
      (∀ id', id' ≠ id → (h.perform call).caches.get? id' = h.caches.get? id') ∧
      ∀ r, b.bind h.eligible? = some r → ∃ c, (h.perform call).caches.get? id = some c ∧
        c.stamp = r.stamp ∧ c.cache.language = r.language := by
  have hc := hr.consistent
  have hk := hr.wellKept
  refine ⟨?_, fun e n => hk.known, ?_, ?_, ?_⟩
  · intro n r hn
    exact ⟨hc.named hn, fun m s hm heq => hc.stamp_inj hm hn heq⟩
  · intro id c hid
    exact ⟨hc.current hid, hk.authentic hid⟩
  · intro l r g hl hsteps id c hid
    obtain ⟨hg, hf⟩ := consistent_and_follows_of_steps hsteps (hc.addLanguage l)
    exact stamp_ne_of_replaced hc hl hf (hg.current hid)
  · intro call id b hcall
    obtain ⟨use, huse, hlanguage, -⟩ := h.exists_use_of_hooked? hcall
    refine ⟨h.perform_frame hcall, ?_, ?_⟩
    · intro id' hne
      rw [huse, get?_caches_withCache_of_ne (Ne.symm hne)]
    · intro r hb
      obtain ⟨b, rfl, hb⟩ := Option.bind_eq_some_iff.1 hb
      obtain ⟨n, hn⟩ := registered_of_eligible? hb
      rw [huse]
      refine ⟨_, get?_caches_withCache hb, rfl, ?_⟩
      exact (hlanguage b _).trans (hc.language_cacheFor hn id)

theorem registry_of_reachable_replaced :
    let words : Language := { name := ['W'], extensions := [['T']] }
    let zig : Buffer := { lines := [['/', '/']], name := ['n'], filetype := some Zig.name }
    let notes : Buffer := { lines := [['a']], name := ['m'], filetype := some ['W'] }
    let h := (((standard.addLanguage words).draw 7 (some zig) 0 ⟨0, 9⟩).2.draw 8 (some notes) 0
      ⟨0, 9⟩).2
    let remapped := (h.addLanguage Zig.language).addFiletype ['z'] ['W']
    let g := (remapped.draw 7 (some zig) 0 ⟨0, 9⟩).2
    let reused := (h.draw 7 (some notes) 0 ⟨0, 9⟩).2
    ∃ r s c d, h.Reachable ∧ h.languages.get? Zig.name = some r ∧ h.eligible? notes = some s ∧
      h.caches.get? 7 = some c ∧ c.stamp = r.stamp ∧ h.extensions.get? ['t'] = some ['W'] ∧
      Relation.ReflTransGen Step (h.addLanguage Zig.language) g ∧ g.caches.get? 7 = some d ∧
      r.language.name = Zig.name ∧ (∃ t, h.languages.get? ['W'] = some t) ∧
      (h.languages.get? c.cache.language.name = some ⟨c.stamp, c.cache.language⟩ ∧
        c.cache.Authentic) ∧
      d.stamp ≠ r.stamp ∧ reused.caches.get? 8 = h.caches.get? 8 ∧
      ∃ e, reused.caches.get? 7 = some e ∧ e.stamp = s.stamp ∧ e.cache.language = s.language := by
  intro words zig notes h remapped g reused
  have hr : h.Reachable :=
    ((Reachable.standard.addLanguage words).draw 7 (some zig) 0 ⟨0, 9⟩).draw 8 (some notes) 0
      ⟨0, 9⟩
  have hsteps : Relation.ReflTransGen Step (h.addLanguage Zig.language) g :=
    (Relation.ReflTransGen.single (.perform (.addFiletype ['z'] ['W']))).tail
      (.perform (.draw 7 (some zig) 0 ⟨0, 9⟩))
  obtain ⟨r, s, c, d, hzig, hnotes, hc, hstamp, hd⟩ : ∃ r s c d,
      h.languages.get? Zig.name = some r ∧ h.eligible? notes = some s ∧
      h.caches.get? 7 = some c ∧ c.stamp = r.stamp ∧ g.caches.get? 7 = some d :=
    ⟨_, _, _, _, rfl, rfl, rfl, rfl, rfl⟩
  have hextension : h.extensions.get? ['t'] = some ['W'] := by decide +kernel
  obtain ⟨hnamed, hknown, hcurrent, hreplaced, hhooks⟩ := registry_of_reachable hr
  obtain ⟨-, hothers, hown⟩ := hhooks (.draw 7 (some notes) 0 ⟨0, 9⟩) 7 (some notes) rfl
  exact ⟨r, s, c, d, hr, hzig, hnotes, hc, hstamp, hextension, hsteps, hd, (hnamed _ _ hzig).1,
    hknown _ _ hextension, hcurrent _ _ hc, hreplaced _ r g hzig hsteps _ _ hd,
    hothers 8 (by decide), hown s hnotes⟩

end Highlighter

end Highlight
