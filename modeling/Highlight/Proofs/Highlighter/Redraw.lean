import Highlight.Proofs.Highlighter.Excursion
import Highlight.Proofs.LineCache.Filling

/-!
# Asking to be drawn again

What a buffer shows is settled by its picture: the records of all its lines, if it is highlighted
(`draw_eq_picture`). A call that changes the picture of a buffer asks for it to be drawn again,
with two exceptions. A filetype that is given to another language does not, and neither does a call
that corrects a cache which was wrong (`redraw_or_draw_eq`).
-/

namespace Highlight

def Buffer.Alike (b' b : Buffer) : Prop :=
  b'.lines = b.lines ∧ b'.kind = b.kind ∧ b'.filetype = b.filetype

namespace Highlighter

/-- The records of all lines of a buffer, if it is highlighted. -/
def picture (h : Highlighter) (id : Nat) (b : Buffer) : Option (List LineRecord) :=
  (h.eligible? b).map fun r => (h.cacheFor id r).cache.filled b.lines

/-- The cache that is kept for a buffer holds the records of its lines, as far as it goes. -/
def Settled (h : Highlighter) (id : Nat) (b : Buffer) : Prop :=
  ∀ c, h.caches.get? id = some c → c.cache.Settled b.lines

inductive Call
  | addLanguage (l : Language)
  | addFiletype (filetype language : Text)
  | toggle
  | unload
  | removeCache (id : Nat)
  | prepare (id : Nat) (b : Option Buffer) (start stop : Nat)
  | draw (id : Nat) (b : Option Buffer) (line : Nat) (w : Window)
  | announce (id : Nat) (b : Option Buffer) (e : LineEdit)
  | report (id : Nat) (b : Option Buffer) (e : LineEdit)

def perform (h : Highlighter) : Call → Highlighter
  | .addLanguage l => h.addLanguage l
  | .addFiletype filetype language => h.addFiletype filetype language
  | .toggle => h.toggle
  | .unload => h.unload
  | .removeCache id => h.removeCache id
  | .prepare id b start stop => h.prepare id b start stop
  | .draw id b line w => (h.draw id b line w).2
  | .announce id b e => h.announce id b e
  | .report id b e => h.report id b e

variable {h g : Highlighter} {id id' : Nat} {b : Buffer} {b' : Option Buffer} {call : Call}
  {calls : List Call}

/-- Hooks are called with the buffer as it is, or with none; the filetype of the buffer is given to
no other language than the one that it stands for. -/
def Allows (h : Highlighter) (id : Nat) (b : Buffer) : Call → Prop
  | .addFiletype filetype language =>
    b.filetype = some filetype → h.languages.get? language = h.registration? filetype
  | .prepare id' b' _ _ | .draw id' b' _ _ | .announce id' b' _ | .report id' b' _ =>
    id' = id → ∀ d ∈ b', d.Alike b
  | _ => True

def Call.Spares (id : Nat) : Call → Prop
  | .removeCache id' | .report id' _ _ => id' ≠ id
  | _ => True

inductive Runs (id : Nat) (b : Buffer) : Highlighter → List Call → Highlighter → Prop
  | nil (h : Highlighter) : Runs id b h [] h
  | cons {h g : Highlighter} {call : Call} {calls : List Call} : h.Allows id b call →
      Runs id b (h.perform call) calls g → Runs id b h (call :: calls) g

/-! ## Pictures -/

theorem draw_eq_picture (h : Highlighter) (id : Nat) (b : Buffer) (line : Nat) (w : Window) :
    (h.draw id (some b) line w).1 =
      (do
        let records ← h.picture id b
        let text ← b.lines[line]?
        let r ← records[line]?
        return h.metrics.columnSpans text r.spans w).getD [] := by
  unfold draw picture
  cases hr : h.eligible? b with
  | none =>
    rw [withCache_of_not_eligible hr]
    rfl
  | some r =>
    rw [withCache_of_eligible hr, Option.map_some]
    generalize (h.cacheFor id r).cache = c
    by_cases hl : line < b.lines.length
    · have hrec : line < (c.filled b.lines).length := by
        rw [LineCache.length_filled]
        exact hl
      simp only [LineCache.spans_of_lt hl, LineCache.columnSpans, LineCache.cachedSpans,
        LineCache.getElem?_extendTo, List.getElem?_eq_getElem hl, List.getElem?_eq_getElem hrec,
        Option.bind_eq_bind, Option.bind_some]
      rfl
    · have hle := Nat.le_of_not_lt hl
      simp only [LineCache.spans_of_le hle, List.getElem?_eq_none hle]
      rfl

theorem draw_eq_of_picture_eq (hmetrics : g.metrics = h.metrics)
    (hpicture : g.picture id b = h.picture id b) (line : Nat) (w : Window) :
    (g.draw id (some b) line w).1 = (h.draw id (some b) line w).1 := by
  rw [draw_eq_picture, draw_eq_picture, hmetrics, hpicture]

section Use

variable {α : Type} {use : Buffer → LineCache → α × LineCache}

theorem eligible?_withCache (h : Highlighter) (id : Nat) (b' : Option Buffer)
    (use : Buffer → LineCache → α × LineCache) :
    (h.withCache id b' use).2.eligible? b = h.eligible? b := by
  rw [withCache_frame]
  rfl

theorem metrics_withCache (h : Highlighter) (id : Nat) (b' : Option Buffer)
    (use : Buffer → LineCache → α × LineCache) :
    (h.withCache id b' use).2.metrics = h.metrics := by
  rw [withCache_frame]

theorem redraw_withCache (h : Highlighter) (id : Nat) (b' : Option Buffer)
    (use : Buffer → LineCache → α × LineCache) :
    (h.withCache id b' use).2.redraw = h.redraw := by
  rw [withCache_frame]

theorem picture_withCache (hb' : id' = id → ∀ d ∈ b', d.Alike b)
    (huse : ∀ r, id' = id → h.eligible? b = some r → ∀ d : Buffer, d.lines = b.lines →
      (use d (h.cacheFor id r).cache).2.filled b.lines =
        (h.cacheFor id r).cache.filled b.lines) :
    (h.withCache id' b' use).2.picture id b = h.picture id b := by
  rw [picture, picture, eligible?_withCache]
  cases hr : h.eligible? b with
  | none => rfl
  | some r =>
    rw [Option.map_some, Option.map_some]
    by_cases heq : id' = id
    · cases b' with
      | none => rfl
      | some d =>
        obtain ⟨hlines, hkind, hfiletype⟩ := hb' heq d rfl
        have hd := (eligible?_congr (h := h) hkind hfiletype).trans hr
        have huse := huse r heq hr d hlines
        subst heq
        rw [cacheFor_withCache hd, huse]
    · rw [cacheFor_withCache_of_ne heq]

end Use

theorem registration?_addFiletype (h : Highlighter) (filetype language name : Text) :
    (h.addFiletype filetype language).registration? name =
      if filetype = name then h.languages.get? language else h.registration? name := by
  rw [registration?, addFiletype, Table.get?_insert]
  split <;> rfl

theorem eligible?_addFiletype {filetype language : Text}
    (ha : b.filetype = some filetype → h.languages.get? language = h.registration? filetype) :
    (h.addFiletype filetype language).eligible? b = h.eligible? b := by
  have hregistration : b.filetype.bind (h.addFiletype filetype language).registration? =
      b.filetype.bind h.registration? := by
    cases hb : b.filetype with
    | none => rfl
    | some name =>
      rw [Option.bind_some, Option.bind_some, registration?_addFiletype]
      split
      · next heq =>
        subst heq
        exact ha hb
      · rfl
  rw [eligible?, eligible?, hregistration]
  rfl

/-! ## Settled caches -/

theorem Settled.cacheFor (hsettled : h.Settled id b) (r : Registration) :
    (h.cacheFor id r).cache.Settled b.lines := by
  rcases h.cacheFor_cases id r with he | ⟨hid, -⟩
  · rw [he]
    exact LineCache.settled_empty _ _
  · exact hsettled _ hid

theorem Settled.picture_eq (hsettled : h.Settled id b) (hs : h.Consistent) :
    h.picture id b = (h.eligible? b).map fun r => r.language.records b.lines := by
  unfold picture
  cases hr : h.eligible? b with
  | none => rfl
  | some r =>
    obtain ⟨n, hn⟩ := registered_of_eligible? hr
    rw [Option.map_some, Option.map_some, (hsettled.cacheFor r).coherent.filled_eq,
      hs.language_cacheFor hn]

theorem settled_removeCache (h : Highlighter) (id : Nat) (b : Buffer) :
    (h.removeCache id).Settled id b := by
  intro c hid
  exact absurd rfl (get?_caches_removeCache_eq_some_iff.1 hid).1

theorem Settled.removeCache (hsettled : h.Settled id b) (id' : Nat) :
    (h.removeCache id').Settled id b := by
  intro c hid
  exact hsettled c (get?_caches_removeCache_eq_some_iff.1 hid).2

theorem Settled.withCache {α : Type} {use : Buffer → LineCache → α × LineCache}
    (hsettled : h.Settled id b) (hb' : id' = id → ∀ d ∈ b', d.Alike b)
    (huse : ∀ (d : Buffer) (c : LineCache), d.lines = b.lines → c.Settled b.lines →
      (use d c).2.Settled b.lines) :
    (h.withCache id' b' use).2.Settled id b := by
  intro c hid
  rcases get?_caches_withCache_cases hid with hid | ⟨d, r, heq, hd, -, rfl⟩
  · exact hsettled c hid
  · subst heq
    exact huse d _ (hb' rfl d hd).1 (hsettled.cacheFor r)

theorem Settled.perform (hsettled : h.Settled id b) (ha : h.Allows id b call) :
    (h.perform call).Settled id b := by
  cases call with
  | addLanguage l =>
    intro c hid
    exact hsettled c (get?_caches_addLanguage_eq_some_iff.1 hid).1
  | addFiletype filetype language => exact hsettled
  | toggle =>
    intro c hid
    obtain ⟨d, hd, rfl⟩ := exists_get?_of_get?_caches_toggle hid
    split
    · exact d.cache.settled_invalidateAll b.lines
    · exact hsettled d hd
  | unload =>
    intro c hid
    cases hid
  | removeCache id' => exact hsettled.removeCache id'
  | prepare id' b' start stop =>
    refine hsettled.withCache ha fun d c hd hc => ?_
    dsimp only
    rw [hd]
    split
    · exact hc.spans _
    · exact hc
  | draw id' b' line w =>
    rw [Highlighter.perform, draw_eq_withCache]
    exact hsettled.withCache ha fun d c hd hc => hd ▸ hc.spans line
  | announce id' b' e => exact hsettled.withCache ha fun d c hd hc => hd ▸ hc.announce e
  | report id' b' e => exact hsettled.withCache ha fun d c hd hc => hd ▸ hc.report e

/-! ## One call -/

theorem Consistent.perform (hs : h.Consistent) (call : Call) : (h.perform call).Consistent := by
  cases call with
  | addLanguage l => exact hs.addLanguage l
  | addFiletype filetype language => exact hs.congr rfl rfl rfl
  | toggle => exact hs.toggle
  | unload => exact hs.unload
  | removeCache id => exact hs.removeCache id
  | prepare id b start stop => exact hs.prepare id b start stop
  | draw id b line w => exact hs.draw id b line w
  | announce id b e => exact hs.announce id b e
  | report id b e => exact hs.report id b e

theorem metrics_perform (h : Highlighter) (call : Call) :
    (h.perform call).metrics = h.metrics := by
  cases call with
  | draw id b line w =>
    rw [perform, draw_eq_withCache]
    exact metrics_withCache h _ _ _
  | prepare | announce | report => exact metrics_withCache h _ _ _
  | _ => rfl

theorem redraw_perform (h : Highlighter) (call : Call) (hredraw : h.redraw = true) :
    (h.perform call).redraw = true := by
  cases call with
  | addLanguage | toggle | unload => rfl
  | addFiletype | removeCache => exact hredraw
  | draw id b line w =>
    rw [perform, draw_eq_withCache]
    exact (redraw_withCache h _ _ _).trans hredraw
  | prepare | announce | report => exact (redraw_withCache h _ _ _).trans hredraw

theorem redraw_or_picture_eq_perform (hs : h.Consistent) (ha : h.Allows id b call)
    (hsettled : h.Settled id b ∨ call.Spares id) :
    (h.perform call).redraw = true ∨ (h.perform call).picture id b = h.picture id b := by
  cases call with
  | addLanguage l => exact .inl rfl
  | toggle => exact .inl rfl
  | unload => exact .inl rfl
  | addFiletype filetype language =>
    right
    rw [picture, perform, eligible?_addFiletype ha]
    rfl
  | removeCache id' =>
    right
    by_cases heq : id' = id
    · have hsettled := hsettled.resolve_right fun hne => hne heq
      rw [perform, (hsettled.removeCache id').picture_eq (hs.removeCache id'),
        hsettled.picture_eq hs]
      rfl
    · have hcache (r : Registration) : (h.removeCache id').cacheFor id r = h.cacheFor id r := by
        rw [cacheFor, removeCache, Table.get?_erase, if_neg heq, cacheFor]
      rw [picture, perform]
      simp only [hcache]
      rfl
  | prepare id' b' start stop =>
    refine .inr (picture_withCache ha fun r _ _ d hd => ?_)
    dsimp only
    rw [hd]
    split
    · exact LineCache.filled_spans _ _ _
    · rfl
  | draw id' b' line w =>
    right
    rw [perform, draw_eq_withCache]
    refine picture_withCache ha fun r _ _ d hd => ?_
    rw [hd]
    exact LineCache.filled_spans _ _ _
  | announce id' b' e =>
    refine .inr (picture_withCache ha fun r _ _ d hd => ?_)
    exact LineCache.filled_congr (LineCache.lines_announce _ _ _)
      (LineCache.language_announce _ _ _)
  | report id' b' e =>
    refine .inr (picture_withCache ha fun r heq _ d hd => ?_)
    have hcache := (hsettled.resolve_right fun hne => hne heq).cacheFor r
    rw [hd]
    exact hcache.filled_report e

/-! ## Runs of calls -/

theorem Runs.metrics_eq (hruns : Runs id b h calls g) : g.metrics = h.metrics := by
  induction hruns with
  | nil h => rfl
  | cons _ _ ih => exact ih.trans (metrics_perform _ _)

theorem Runs.redraw_eq (hruns : Runs id b h calls g) (hredraw : h.redraw = true) :
    g.redraw = true := by
  induction hruns with
  | nil h => exact hredraw
  | cons _ _ ih => exact ih (redraw_perform _ _ hredraw)

theorem Runs.redraw_or_picture_eq (hruns : Runs id b h calls g) (hs : h.Consistent)
    (hsettled : h.Settled id b ∨ ∀ call ∈ calls, call.Spares id) :
    g.redraw = true ∨ g.picture id b = h.picture id b := by
  induction hruns with
  | nil h => exact .inr rfl
  | cons ha hruns ih =>
    have hcall := hsettled.imp_right fun hspares => hspares _ List.mem_cons_self
    have hrest := hsettled.imp (fun hsettled => hsettled.perform ha) fun hspares call hmem =>
      hspares call (List.mem_cons_of_mem _ hmem)
    rcases redraw_or_picture_eq_perform hs ha hcall with hredraw | hpicture
    · exact .inl (hruns.redraw_eq hredraw)
    · exact (ih (hs.perform _) hrest).imp_right fun h => h.trans hpicture

theorem Settled.draw_eq_drawFresh (hsettled : h.Settled id b) (hs : h.Consistent) (line : Nat)
    (w : Window) : (h.draw id (some b) line w).1 = h.drawFresh b line w :=
  draw_eq_drawAs hs (fun {r} _ => (hsettled.cacheFor r).coherent.reflects) line w

/-- What is on the screen stays right, or the host is asked to draw it again. -/
def KeepsScreen (h g : Highlighter) (id : Nat) (b : Buffer) : Prop :=
  g.redraw = true ∨ ∀ line w, (g.draw id (some b) line w).1 = (h.draw id (some b) line w).1

theorem keepsScreen_addFiletype_iff (hs : h.Consistent) (hsettled : h.Settled id b)
    (filetype language : Text) :
    KeepsScreen h (h.addFiletype filetype language) id b ↔
      h.redraw = true ∨
        ∀ line w, (h.addFiletype filetype language).drawFresh b line w = h.drawFresh b line w := by
  have hadded : (h.addFiletype filetype language).Settled id b := hsettled
  have hconsistent := hs.perform (.addFiletype filetype language)
  refine or_congr Iff.rfl (forall_congr' fun line => forall_congr' fun w => ?_)
  rw [hadded.draw_eq_drawFresh hconsistent, hsettled.draw_eq_drawFresh hs]

theorem keepsScreen_removeCache_iff (hs : h.Consistent) (id : Nat) (b : Buffer) :
    KeepsScreen h (h.removeCache id) id b ↔
      h.redraw = true ∨ ∀ line w, (h.draw id (some b) line w).1 = h.drawFresh b line w := by
  refine or_congr Iff.rfl (forall_congr' fun line => forall_congr' fun w => ?_)
  rw [(h.settled_removeCache id b).draw_eq_drawFresh (hs.removeCache id), eq_comm]
  rfl

/-- Calls that give the filetype of a buffer to no other language ask for it to be drawn again
where they change what it shows, as long as its cache holds the records of its lines or is neither
dropped nor told of edits. Given to another language, its filetype changes what it shows by that
language and nothing is asked; and where its cache is wrong, dropping the cache sets it right and
nothing is asked. -/
theorem keepsScreen_of_runs (hr : h.Reachable) (hruns : Runs id b h calls g)
    (hsettled : h.Settled id b ∨ ∀ call ∈ calls, call.Spares id) :
    KeepsScreen h g id b ∧
      (h.Settled id b → ∀ filetype language,
        KeepsScreen h (h.addFiletype filetype language) id b ↔ h.redraw = true ∨
          ∀ line w, (h.addFiletype filetype language).drawFresh b line w = h.drawFresh b line w) ∧
      (KeepsScreen h (h.removeCache id) id b ↔ h.redraw = true ∨
        ∀ line w, (h.draw id (some b) line w).1 = h.drawFresh b line w) := by
  have hs := hr.consistent
  refine ⟨?_, keepsScreen_addFiletype_iff hs, keepsScreen_removeCache_iff hs id b⟩
  exact (hruns.redraw_or_picture_eq hs hsettled).imp_right fun hpicture line w =>
    draw_eq_of_picture_eq hruns.metrics_eq hpicture line w

theorem keepsScreen_of_runs_quiet :
    let lines : List Text := [['/', '*'], ['*', '/']]
    let b : Buffer := { lines, name := ['n'], filetype := some Zig.name }
    let h := (standard.takeRedraw.2.draw 7 (some b) 0 ⟨0, 9⟩).2
    let calls : List Call := [.addFiletype Zig.name Zig.name, .announce 7 (some b) ⟨0, 2, 1⟩,
      .report 7 (some b) ⟨0, 1, 1⟩, .removeCache 7, .prepare 7 none 0 9]
    ∃ g, h.Reachable ∧ Runs 7 b h calls g ∧ h.Settled 7 b ∧ g.redraw = false ∧
      (∀ line w, (g.draw 7 (some b) line w).1 = (h.draw 7 (some b) line w).1) ∧
      (g.draw 7 (some b) 1 ⟨0, 9⟩).1 = [⟨0, 2, .comment⟩] := by
  intro lines b h calls
  have hr : h.Reachable := (Reachable.standard.takeRedraw).draw 7 (some b) 0 ⟨0, 9⟩
  have hempty : standard.takeRedraw.2.Settled 7 b := nofun
  have hself : 7 = 7 → ∀ d ∈ some b, d.Alike b := by
    rintro - d ⟨⟩
    exact ⟨rfl, rfl, rfl⟩
  have hdraw : standard.takeRedraw.2.Allows 7 b (.draw 7 (some b) 0 ⟨0, 9⟩) := hself
  have hsettled : h.Settled 7 b := hempty.perform hdraw
  obtain ⟨g, hruns, hquiet⟩ : ∃ g, Runs 7 b h calls g ∧ g.redraw = false :=
    ⟨_, .cons (fun _ => rfl) <| .cons hself <| .cons hself <| .cons trivial <| .cons nofun <|
      .nil _, rfl⟩
  obtain ⟨hscreen, -, -⟩ := keepsScreen_of_runs hr hruns (.inl hsettled)
  have hsame : ∀ line w, (g.draw 7 (some b) line w).1 = (h.draw 7 (some b) line w).1 := by
    refine hscreen.resolve_left fun hredraw => ?_
    rw [hquiet] at hredraw
    cases hredraw
  exact ⟨g, hr, hruns, hsettled, hquiet, hsame, (hsame 1 ⟨0, 9⟩).trans (by decide +kernel)⟩

/-- A filetype that is given to Zig colors a buffer, and a comment that was moved while the buffer
was passed over moves when its cache is dropped. Neither asks for anything to be drawn. -/
theorem not_keepsScreen_of_filetype :
    let b : Buffer := { lines := [['f', 'n']], name := ['n'], filetype := some ['z'] }
    let h := standard.takeRedraw.2
    let comment : Buffer := { lines := [['/', '/']], name := ['n'], filetype := some Zig.name }
    let moved : Buffer := { comment with lines := [[' ', '/', '/']] }
    let stale := (standard.draw 7 (some comment) 0 ⟨0, 9⟩).2.takeRedraw.2
    (h.Reachable ∧ ¬ KeepsScreen h (h.addFiletype ['z'] Zig.name) 0 b) ∧
      stale.Reachable ∧ ¬ KeepsScreen stale (stale.removeCache 7) 7 moved := by
  intro b h comment moved stale
  refine ⟨⟨Reachable.standard.takeRedraw, ?_⟩, (Reachable.standard.draw 7 _ 0 _).takeRedraw, ?_⟩
  · rintro (hredraw | hdraw)
    · cases hredraw
    · exact absurd (hdraw 0 ⟨0, 9⟩) (by decide +kernel)
  · rintro (hredraw | hdraw)
    · cases hredraw
    · exact absurd (hdraw 0 ⟨0, 9⟩) (by decide +kernel)

end Highlighter

end Highlight
