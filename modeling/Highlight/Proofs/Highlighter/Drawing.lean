import Highlight.Proofs.Buffer.Splice
import Highlight.Proofs.Highlighter.Registry

/-!
# Drawing is never stale

A workspace is a highlighter with the buffers that it serves. Whatever is done there in
whatever order, a cache that is kept for a buffer is coherent with the lines that the
buffer has now, and it is empty while the highlighter is off and does not hear of edits
(`Current`). A line is therefore always drawn as a fresh classification of the buffer in
the language that its filetype stands for now.
-/

namespace Highlight

namespace LineCache

variable {c : LineCache} {source seen : List Text} {line : Nat}

theorem columnSpans_extendTo (h : c.Reflects source seen) (hl : line < source.length)
    (hr : line < (c.language.records seen).length) (m : Metrics) (w : Window) :
    (c.extendTo source (line + 1)).columnSpans m source line w =
      .ok (m.columnSpans source[line] (c.language.records seen)[line].spans w) := by
  rw [columnSpans, List.getElem?_eq_getElem hl]
  simp only [cachedSpans_extendTo h, List.getElem?_eq_getElem hr, Option.map_some]

end LineCache

namespace Highlighter

def drawAs (h : Highlighter) (b : Buffer) (seen : List Text) (line : Nat) (w : Window) :
    List ColumnSpan :=
  if h.enabled ∧ b.kind = .file then
    (do
      let l ← b.filetype.bind h.resolve?
      let text ← b.lines[line]?
      let r ← (l.records seen)[line]?
      return h.metrics.columnSpans text r.spans w).getD []
  else []

/-- What a line shows if nothing is remembered of what was drawn before. -/
def drawFresh (h : Highlighter) (b : Buffer) (line : Nat) (w : Window) : List ColumnSpan :=
  h.drawAs b b.lines line w

/-- What the cache of a buffer owes to it: its records are those of the lines of now, it
belongs to a buffer that is highlighted, and it keeps nothing while nothing is heard. -/
structure KeptFor (h : Highlighter) (b : Buffer) (c : LineCache) : Prop where
  coherent : c.Coherent b.lines
  file : b.kind = .file
  resolved : (b.filetype.bind h.registration?).isSome
  idle : h.enabled = false → c.lines = []

def Current (h : Highlighter) (buffers : Table Nat Buffer) : Prop :=
  ∀ id b c, buffers.get? id = some b → h.caches.get? id = some c → h.KeptFor b c.cache

variable {h : Highlighter} {buffers buffers' : Table Nat Buffer} {id : Nat} {b b' : Buffer}

theorem resolve?_eq_map (h : Highlighter) (filetype : Option Text) :
    filetype.bind h.resolve? = (filetype.bind h.registration?).map Registration.language := by
  rw [Option.map_bind]
  rfl

theorem KeptFor.of_eligible {c : LineCache} {r : Registration} (hr : h.eligible? b = some r)
    (hc : c.Coherent b.lines) : h.KeptFor b c := by
  obtain ⟨⟨hon, hfile⟩, hres⟩ := eligible?_eq_some_iff.1 hr
  refine ⟨hc, hfile, Option.isSome_iff_exists.2 ⟨r, hres⟩, ?_⟩
  intro hoff
  cases hon.symm.trans hoff

theorem KeptFor.lines_eq_nil {c : LineCache} (hk : h.KeptFor b c) (hr : h.eligible? b = none) :
    c.lines = [] := by
  refine hk.idle (Bool.eq_false_iff.2 fun hon => ?_)
  obtain ⟨r, hres⟩ := Option.isSome_iff_exists.1 hk.resolved
  have hsome := eligible?_eq_some_iff.2 ⟨⟨hon, hk.file⟩, hres⟩
  cases hr.symm.trans hsome

theorem Current.coherent_cacheFor (hc : h.Current buffers) (hb : buffers.get? id = some b)
    (r : Registration) : (h.cacheFor id r).cache.Coherent b.lines := by
  rcases h.cacheFor_cases id r with he | ⟨hid, -⟩
  · rw [he]
    exact LineCache.coherent_of_lines_eq_nil rfl
  · exact (hc _ _ _ hb hid).coherent

theorem Current.withCache {α : Type} {use : Buffer → LineCache → α × LineCache}
    (hc : h.Current buffers) (hb : buffers.get? id = some b) (hb' : buffers'.get? id = some b')
    (hother : ∀ id', id ≠ id' → buffers'.get? id' = buffers.get? id')
    (hkind : b'.kind = b.kind) (hfiletype : b'.filetype = b.filetype)
    (huse : ∀ c : LineCache, c.Coherent b.lines → (use b' c).2.Coherent b'.lines) :
    (h.withCache id (some b') use).2.Current buffers' := by
  intro id' d c hd hid
  have hsame := eligible?_congr (h := h) hkind hfiletype
  cases hr : h.eligible? b' with
  | none =>
    rw [withCache_of_not_eligible hr] at hid ⊢
    by_cases heq : id = id'
    · subst heq
      cases hb'.symm.trans hd
      have hkept := hc _ _ _ hb hid
      -- What is not heard leaves an empty cache, which is coherent with any lines.
      have hnil := hkept.lines_eq_nil (hsame.symm.trans hr)
      refine ⟨LineCache.coherent_of_lines_eq_nil hnil, hkind.trans hkept.file, ?_, hkept.idle⟩
      rw [hfiletype]
      exact hkept.resolved
    · exact hc _ _ _ ((hother id' heq).symm.trans hd) hid
  | some r =>
    rw [withCache_of_eligible hr] at hid ⊢
    rw [Table.get?_insert] at hid
    by_cases heq : id = id'
    · subst heq
      cases hb'.symm.trans hd
      rw [if_pos rfl, Option.some.injEq] at hid
      subst hid
      have hkept := KeptFor.of_eligible hr (huse _ (hc.coherent_cacheFor hb r))
      exact ⟨hkept.coherent, hkept.file, hkept.resolved, hkept.idle⟩
    · rw [if_neg heq] at hid
      have hkept := hc _ _ _ ((hother id' heq).symm.trans hd) hid
      exact ⟨hkept.coherent, hkept.file, hkept.resolved, hkept.idle⟩

theorem draw_eq_drawAs {seen : List Text} (hs : h.Consistent)
    (hc : ∀ {r}, h.eligible? b = some r → (h.cacheFor id r).cache.Reflects b.lines seen)
    (line : Nat) (w : Window) :
    (h.draw id (some b) line w).1 = h.drawAs b seen line w := by
  unfold draw drawAs
  rw [resolve?_eq_map]
  cases hr : h.eligible? b with
  | none =>
    rw [withCache_of_not_eligible hr]
    by_cases hon : h.enabled ∧ b.kind = .file
    · have hnone : b.filetype.bind h.registration? = none := by
        rwa [eligible?, if_pos hon] at hr
      rw [if_pos hon, hnone]
      rfl
    · rw [if_neg hon]
      rfl
  | some r =>
    obtain ⟨hon, hres⟩ := eligible?_eq_some_iff.1 hr
    obtain ⟨n, hn⟩ := registered_of_eligible? hr
    have hlang := hs.language_cacheFor hn id
    have hseen := hc hr
    rw [withCache_of_eligible hr, if_pos hon, hres]
    by_cases hl : line < b.lines.length
    · have hrec : line < ((h.cacheFor id r).cache.language.records seen).length := by
        rw [Language.length_records, hseen.length_eq]
        exact hl
      simp only [LineCache.spans_of_lt hl, LineCache.columnSpans_extendTo hseen hl hrec,
        List.getElem?_eq_getElem hl, Option.map_some, Option.getD_some]
      rw [← hlang]
      simp only [Option.bind_eq_bind, Option.bind_some, List.getElem?_eq_getElem hrec]
      rfl
    · have hle := Nat.le_of_not_lt hl
      simp only [LineCache.spans_of_le hle, List.getElem?_eq_none hle]
      rfl

theorem Current.draw_eq_drawFresh (hs : h.Consistent) (hc : h.Current buffers)
    (hb : buffers.get? id = some b) (line : Nat) (w : Window) :
    (h.draw id (some b) line w).1 = h.drawFresh b line w :=
  draw_eq_drawAs hs (fun {r} _ => (hc.coherent_cacheFor hb r).reflects) line w

namespace Current

theorem draw (hc : h.Current buffers) (id : Nat) (line : Nat) (w : Window) :
    (h.draw id (buffers.get? id) line w).2.Current buffers := by
  rw [draw_eq_withCache]
  cases hb : buffers.get? id with
  | none => exact hc
  | some b =>
    exact hc.withCache hb hb (fun _ _ => rfl) rfl rfl
      fun c hcoh => LineCache.coherent_spans hcoh line

theorem prepare (hc : h.Current buffers) (id start stop : Nat) :
    (h.prepare id (buffers.get? id) start stop).Current buffers := by
  unfold Highlighter.prepare
  cases hb : buffers.get? id with
  | none => exact hc
  | some b =>
    refine hc.withCache hb hb (fun _ _ => rfl) rfl rfl ?_
    intro c hcoh
    dsimp only
    split
    · exact LineCache.coherent_spans hcoh _
    · exact hcoh

theorem announce (hc : h.Current buffers) (hb : buffers.get? id = some b) (e : LineEdit) :
    (h.announce id (some b) e).Current buffers := by
  refine hc.withCache hb hb (fun _ _ => rfl) rfl rfl ?_
  intro c hcoh
  exact hcoh.congr (LineCache.lines_announce c b.lines e) (LineCache.language_announce c b.lines e)

theorem report (hc : h.Current buffers) (hb : buffers.get? id = some b) {e : LineEdit}
    {inserted : List Text} (he : e.Fits b.lines inserted) :
    let edited := { b with lines := e.splice b.lines inserted, modified := true }
    (h.report id (some edited) e).Current (buffers.insert id edited) := by
  refine hc.withCache hb ?_ ?_ rfl rfl ?_
  · rw [Table.get?_insert, if_pos rfl]
  · intro id' hne
    rw [Table.get?_insert, if_neg hne]
  · intro c hcoh
    exact LineCache.coherent_report hcoh he

theorem toggle (hc : h.Current buffers) : h.toggle.Current buffers := by
  intro id b c hb hid
  obtain ⟨d, hd, rfl⟩ := exists_get?_of_get?_caches_toggle hid
  have hkept := hc _ _ _ hb hd
  by_cases hon : h.enabled
  · rw [if_pos hon]
    exact ⟨LineCache.coherent_of_lines_eq_nil rfl, hkept.file, hkept.resolved, fun _ => rfl⟩
  · rw [if_neg hon]
    refine ⟨hkept.coherent, hkept.file, hkept.resolved, ?_⟩
    intro hoff
    have hneg : (!h.enabled) = false := hoff
    exact absurd (by simpa using hneg) hon

theorem unload (buffers : Table Nat Buffer) : h.unload.Current buffers := by
  intro id b c _ hid
  cases hid

theorem removeCache (hc : h.Current buffers) (id : Nat) : (h.removeCache id).Current buffers := by
  intro id' b c hb hid
  have hkept := hc _ _ _ hb (get?_caches_removeCache_eq_some_iff.1 hid).2
  exact ⟨hkept.coherent, hkept.file, hkept.resolved, hkept.idle⟩

theorem of_filetypes {g : Highlighter} (hc : h.Current buffers)
    (hcaches : ∀ {id c}, g.caches.get? id = some c → h.caches.get? id = some c)
    (henabled : g.enabled = h.enabled)
    (hresolved : ∀ filetype, (h.registration? filetype).isSome → (g.registration? filetype).isSome) :
    g.Current buffers := by
  intro id b c hb hid
  have hkept := hc _ _ _ hb (hcaches hid)
  refine ⟨hkept.coherent, hkept.file, ?_, ?_⟩
  · obtain ⟨r, hr⟩ := Option.isSome_iff_exists.1 hkept.resolved
    obtain ⟨filetype, hf, hr⟩ := Option.bind_eq_some_iff.1 hr
    rw [hf]
    exact hresolved filetype (Option.isSome_iff_exists.2 ⟨r, hr⟩)
  · rw [henabled]
    exact hkept.idle

theorem addLanguage (hc : h.Current buffers) (l : Language) :
    (h.addLanguage l).Current buffers := by
  refine hc.of_filetypes (fun hid => (get?_caches_addLanguage_eq_some_iff.1 hid).1) rfl ?_
  intro filetype hres
  obtain ⟨r, hr⟩ := Option.isSome_iff_exists.1 hres
  obtain ⟨name, hname, hr⟩ := Option.bind_eq_some_iff.1 hr
  rw [registration?, Highlighter.addLanguage, Table.get?_insert]
  by_cases hf : l.name = filetype
  · rw [if_pos hf, Option.bind_some, Table.get?_insert, if_pos rfl]
    rfl
  · rw [if_neg hf, hname, Option.bind_some, Table.get?_insert]
    split
    · rfl
    · exact Option.isSome_iff_exists.2 ⟨r, hr⟩

theorem addFiletype (hc : h.Current buffers) (filetype : Text) {language : Text}
    (hl : (h.languages.get? language).isSome) :
    (h.addFiletype filetype language).Current buffers := by
  refine hc.of_filetypes (fun hid => hid) rfl ?_
  intro filetype' hres
  rw [registration?, Highlighter.addFiletype, Table.get?_insert]
  split
  · exact hl
  · exact hres

end Current

end Highlighter

structure Workspace where
  highlighter : Highlighter
  buffers : Table Nat Buffer

inductive WorkspaceCall
  | edit (id : Nat) (e : Edit)
  | prepare (id start stop : Nat)
  | draw (id line : Nat) (w : Window)
  | toggle
  | unload
  | removeCache (id : Nat)
  | addLanguage (l : Language)
  | addFiletype (filetype language : Text)

namespace Workspace

/-- A filetype may be given to a language that is known; nothing is asked of other calls. -/
def Allows (w : Workspace) : WorkspaceCall → Prop
  | .addFiletype _ language => (w.highlighter.languages.get? language).isSome
  | _ => True

def edit (w : Workspace) (id : Nat) (e : Edit) : Workspace :=
  match w.buffers.get? id with
  | none => w
  | some b =>
    let (_, b, h) := b.applyWith (Highlighter.hooks id) e w.highlighter
    ⟨h, w.buffers.insert id b⟩

def perform (w : Workspace) : WorkspaceCall → Workspace
  | .edit id e => w.edit id e
  | .prepare id start stop =>
    { w with highlighter := w.highlighter.prepare id (w.buffers.get? id) start stop }
  | .draw id line win =>
    { w with highlighter := (w.highlighter.draw id (w.buffers.get? id) line win).2 }
  | .toggle => { w with highlighter := w.highlighter.toggle }
  | .unload => { w with highlighter := w.highlighter.unload }
  | .removeCache id => { w with highlighter := w.highlighter.removeCache id }
  | .addLanguage l => { w with highlighter := w.highlighter.addLanguage l }
  | .addFiletype filetype language =>
    { w with highlighter := w.highlighter.addFiletype filetype language }

inductive Runs : Workspace → List WorkspaceCall → Workspace → Prop
  | nil (w : Workspace) : Runs w [] w
  | cons {w w' : Workspace} {call : WorkspaceCall} {calls : List WorkspaceCall} :
      w.Allows call → Runs (w.perform call) calls w' → Runs w (call :: calls) w'

structure Sound (w : Workspace) : Prop where
  consistent : w.highlighter.Consistent
  current : w.highlighter.Current w.buffers

variable {w w' : Workspace}

theorem edit_of_range_error {id : Nat} {b : Buffer} {e : Edit} {err : EditError}
    (hb : w.buffers.get? id = some b) (he : e.range b.lines = .error err) :
    w.edit id e = ⟨w.highlighter, w.buffers.insert id b⟩ := by
  simp only [edit, hb, Buffer.applyWith_of_range_error he]

theorem edit_of_range {id : Nat} {b : Buffer} {e : Edit} {r : LineEdit}
    (hb : w.buffers.get? id = some b) (he : e.range b.lines = .ok r) :
    w.edit id e = ⟨(w.highlighter.announce id (some b) r).report id (some (b.apply e).2) r,
      w.buffers.insert id (b.apply e).2⟩ := by
  simp only [edit, hb, Buffer.applyWith_of_range he]
  rfl

theorem Sound.edit (hw : w.Sound) (id : Nat) (e : Edit) : (w.edit id e).Sound := by
  cases hb : w.buffers.get? id with
  | none =>
    rw [Workspace.edit, hb]
    exact hw
  | some b =>
    cases he : e.range b.lines with
    | error err =>
      rw [edit_of_range_error hb he]
      refine ⟨hw.consistent, ?_⟩
      intro id' d c hd hid
      rw [Table.get?_insert] at hd
      split at hd
      · next heq =>
        cases hd
        exact hw.current _ _ _ (heq ▸ hb) hid
      · exact hw.current _ _ _ hd hid
    | ok r =>
      obtain ⟨inserted, hfits, happly⟩ := Buffer.apply_of_range he
      rw [edit_of_range hb he, happly]
      refine ⟨(hw.consistent.announce id (some b) r).report id _ r, ?_⟩
      exact (hw.current.announce hb r).report hb hfits

theorem Sound.perform {call : WorkspaceCall} (hw : w.Sound) (ha : w.Allows call) :
    (w.perform call).Sound := by
  cases call with
  | edit id e => exact hw.edit id e
  | prepare id start stop =>
    exact ⟨hw.consistent.prepare id _ start stop, hw.current.prepare id start stop⟩
  | draw id line win => exact ⟨hw.consistent.draw id _ line win, hw.current.draw id line win⟩
  | toggle => exact ⟨hw.consistent.toggle, hw.current.toggle⟩
  | unload => exact ⟨hw.consistent.unload, Highlighter.Current.unload w.buffers⟩
  | removeCache id => exact ⟨hw.consistent.removeCache id, hw.current.removeCache id⟩
  | addLanguage l => exact ⟨hw.consistent.addLanguage l, hw.current.addLanguage l⟩
  | addFiletype filetype language =>
    exact ⟨hw.consistent.congr rfl rfl rfl, hw.current.addFiletype filetype ha⟩

theorem Runs.sound {calls : List WorkspaceCall} (hr : Runs w calls w') (hw : w.Sound) :
    w'.Sound := by
  induction hr with
  | nil w => exact hw
  | cons ha _ ih => exact ih (hw.perform ha)

theorem sound_of_caches_eq_none {h : Highlighter} {buffers : Table Nat Buffer}
    (hr : h.Reachable)
    (hc : ∀ id, (buffers.get? id).isSome → h.caches.get? id = none) : Sound ⟨h, buffers⟩ := by
  refine ⟨hr.consistent, ?_⟩
  intro id b c hb hid
  have hnone := hc id (Option.isSome_iff_exists.2 ⟨b, hb⟩)
  cases hnone.symm.trans hid

/-- After calls in any order every line of every buffer is drawn as if nothing had been
drawn before. -/
theorem draw_eq_drawFresh_of_runs {h : Highlighter} {buffers : Table Nat Buffer}
    {calls : List WorkspaceCall} (hr : h.Reachable)
    (hc : ∀ id, (buffers.get? id).isSome → h.caches.get? id = none)
    (hw : Runs ⟨h, buffers⟩ calls w) {id : Nat} {b : Buffer} (hb : w.buffers.get? id = some b)
    (line : Nat) (win : Window) :
    (w.highlighter.draw id (some b) line win).1 = w.highlighter.drawFresh b line win := by
  have hsound := hw.sound (sound_of_caches_eq_none hr hc)
  exact hsound.current.draw_eq_drawFresh hsound.consistent hb line win

theorem draw_eq_drawFresh_of_runs_toggled :
    ∃ w b, Runs ⟨Highlighter.standard, (∅ : Table Nat Buffer).insert 7
          { lines := [['/', '/']], name := ['n'], filetype := some Zig.name }⟩
        [.draw 7 0 ⟨0, 9⟩, .toggle, .edit 7 (.insert 0 0 ['a']), .toggle,
          .addLanguage Zig.language, .addFiletype ['z'] Zig.name] w ∧
      w.buffers.get? 7 = some b ∧ b.lines = [['a', '/', '/']] ∧
      (∀ line win, (w.highlighter.draw 7 (some b) line win).1 =
        w.highlighter.drawFresh b line win) ∧
      (w.highlighter.draw 7 (some b) 0 ⟨0, 9⟩).1 = [⟨1, 3, .comment⟩] := by
  have hnone : ∀ id, (((∅ : Table Nat Buffer).insert 7
      { lines := [['/', '/']], name := ['n'], filetype := some Zig.name }).get? id).isSome →
      Highlighter.standard.caches.get? id = none := fun _ _ => rfl
  obtain ⟨w, b, hw, hb, hlines, hfresh⟩ : ∃ w b, Runs ⟨Highlighter.standard,
      (∅ : Table Nat Buffer).insert 7
          { lines := [['/', '/']], name := ['n'], filetype := some Zig.name }⟩
        [.draw 7 0 ⟨0, 9⟩, .toggle, .edit 7 (.insert 0 0 ['a']), .toggle,
          .addLanguage Zig.language, .addFiletype ['z'] Zig.name] w ∧
      w.buffers.get? 7 = some b ∧ b.lines = [['a', '/', '/']] ∧
      w.highlighter.drawFresh b 0 ⟨0, 9⟩ = [⟨1, 3, .comment⟩] :=
    ⟨_, _, .cons trivial (.cons trivial (.cons trivial (.cons trivial (.cons trivial
      (.cons rfl (.nil _)))))), rfl, rfl, by decide +kernel⟩
  have hdrawn := draw_eq_drawFresh_of_runs .standard hnone hw hb
  exact ⟨w, b, hw, hb, hlines, hdrawn, (hdrawn 0 ⟨0, 9⟩).trans hfresh⟩

end Workspace

end Highlight
