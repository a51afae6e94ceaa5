import Highlight.Proofs.Highlighter.Drawing

/-!
# Edits that are not heard

A buffer may stop to be highlighted for a while, since the highlighter is off or since its
kind or its filetype is another one. Edits of that time reach no cache, and the cache that
the buffer had stays. If the buffer is then highlighted again, its first lines keep the
spans of the lines that stood there before, and the lines behind them continue from the
state reached there: the buffer is drawn as a blend of its old and its new lines
(`remembers_excursion`). That is right exactly if the blend looks like the new lines.
-/

namespace Highlight

def blend {α : Type} (n : Nat) (old new : List α) : List α :=
  (old.take n ++ new.drop n).take new.length

section Blend

variable {α : Type} {n : Nat} {old new : List α}

theorem length_blend (h : n ≤ old.length) : (blend n old new).length = new.length := by
  rw [blend, List.length_take, List.length_append, List.length_take, List.length_drop]
  omega

theorem take_blend (h : n ≤ old.length) :
    (blend n old new).take n = (old.take n).take new.length := by
  have hn : (old.take n).length = n := by rw [List.length_take, Nat.min_eq_left h]
  rw [blend, List.take_take, Nat.min_comm, ← List.take_take, List.take_left' hn]

theorem drop_blend (h : n ≤ old.length) : (blend n old new).drop n = new.drop n := by
  have hn : (old.take n).length = n := by rw [List.length_take, Nat.min_eq_left h]
  rw [blend, List.drop_take, List.drop_left' hn,
    List.take_of_length_le (Nat.le_of_eq List.length_drop)]

end Blend

theorem LineCache.Coherent.reflects_blend {c : LineCache} {old : List Text} (h : c.Coherent old)
    (new : List Text) : c.Reflects new (blend c.lines.length old new) := by
  refine ⟨length_blend h.2, ?_, drop_blend h.2⟩
  have hlines := congrArg (List.take new.length) h.lines_eq
  rw [Language.take_records] at hlines
  rw [hlines, take_blend h.2]

namespace Buffer

def usedAs (b : Buffer) (kind : BufferKind) (filetype : Option Text) : Buffer :=
  { b with kind := kind, filetype := filetype }

theorem apply_usedAs (b : Buffer) (kind : BufferKind) (filetype : Option Text) (e : Edit) :
    ((b.usedAs kind filetype).apply e).2 = (b.apply e).2.usedAs kind filetype := by
  simp only [apply, usedAs]
  split <;> rfl

def applyAll (b : Buffer) (edits : List Edit) : Buffer := edits.foldl (fun b e => (b.apply e).2) b

theorem applyAll_usedAs (b : Buffer) (kind : BufferKind) (filetype : Option Text)
    (edits : List Edit) :
    (b.usedAs kind filetype).applyAll edits = (b.applyAll edits).usedAs kind filetype := by
  induction edits generalizing b with
  | nil => rfl
  | cons e edits ih =>
    rw [applyAll, List.foldl_cons, apply_usedAs]
    exact ih (b.apply e).2

theorem kind_apply (b : Buffer) (e : Edit) : (b.apply e).2.kind = b.kind := by
  unfold apply
  split <;> rfl

theorem filetype_apply (b : Buffer) (e : Edit) : (b.apply e).2.filetype = b.filetype := by
  unfold apply
  split <;> rfl

theorem applyAll_usedAs_self (b : Buffer) (edits : List Edit) :
    (b.applyAll edits).usedAs b.kind b.filetype = b.applyAll edits := by
  rw [← applyAll_usedAs]
  rfl

end Buffer

namespace Highlighter

variable {h : Highlighter} {id id' : Nat} {b b' : Buffer} {r : Registration}

theorem eligible?_apply (h : Highlighter) (b : Buffer) (e : Edit) :
    h.eligible? (b.apply e).2 = h.eligible? b :=
  eligible?_congr (b.kind_apply e) (b.filetype_apply e)

theorem eligible?_applyAll (h : Highlighter) (b : Buffer) (edits : List Edit) :
    h.eligible? (b.applyAll edits) = h.eligible? b := by
  induction edits generalizing b with
  | nil => rfl
  | cons e edits ih => exact (ih (b.apply e).2).trans (h.eligible?_apply b e)

theorem announce_of_not_eligible (hr : h.eligible? b = none) (id : Nat) (e : LineEdit) :
    h.announce id (some b) e = h := by
  rw [announce, withCache_of_not_eligible hr]

theorem report_of_not_eligible (hr : h.eligible? b = none) (id : Nat) (e : LineEdit) :
    h.report id (some b) e = h := by
  rw [report, withCache_of_not_eligible hr]

section Use

variable {α : Type} {use : Buffer → LineCache → α × LineCache}

theorem cacheFor_withCache (hr : h.eligible? b = some r) :
    (h.withCache id (some b) use).2.cacheFor id r =
      ⟨r.stamp, (use b (h.cacheFor id r).cache).2⟩ := by
  rw [cacheFor, get?_caches_withCache hr]
  exact if_pos rfl

theorem cacheFor_withCache_of_ne (hne : id ≠ id') (h : Highlighter) (b : Option Buffer)
    (use : Buffer → LineCache → α × LineCache) (r : Registration) :
    (h.withCache id b use).2.cacheFor id' r = h.cacheFor id' r := by
  rw [cacheFor, get?_caches_withCache_of_ne hne, cacheFor]

end Use

/-- Of what decides about a buffer only the caches of a highlighter may have changed, and
the buffer is still taken for the same document. -/
structure Remembers (h g : Highlighter) (id : Nat) (b : Buffer) (seen : List Text) : Prop where
  consistent : g.Consistent
  frame : g = { h with caches := g.caches }
  reflects : ∀ {r}, h.eligible? b = some r → (g.cacheFor id r).cache.Reflects b.lines seen

namespace Remembers

variable {g : Highlighter} {seen : List Text} {α : Type} {use : Buffer → LineCache → α × LineCache}

theorem eligible?_eq (hm : h.Remembers g id b seen) (b' : Buffer) :
    g.eligible? b' = h.eligible? b' := by
  rw [hm.frame]
  rfl

theorem draw_eq (hm : h.Remembers g id b seen) (line : Nat) (w : Window) :
    (g.draw id (some b) line w).1 = h.drawAs b seen line w := by
  have hdraw := draw_eq_drawAs hm.consistent
    (fun hr => hm.reflects ((hm.eligible?_eq b).symm.trans hr)) line w
  rw [hdraw, hm.frame]
  rfl

theorem withCache_frame (hm : h.Remembers g id b seen) (id' : Nat) (b' : Option Buffer) :
    (g.withCache id' b' use).2 = { h with caches := (g.withCache id' b' use).2.caches } := by
  have hframe := g.withCache_frame id' b' use
  rw [hm.frame] at hframe
  rw [hm.frame]
  exact hframe

theorem withCache (hm : h.Remembers g id b seen) (hc : (g.withCache id (some b) use).2.Consistent)
    (huse : ∀ c : LineCache, c.Reflects b.lines seen → (use b c).2.Reflects b.lines seen) :
    h.Remembers (g.withCache id (some b) use).2 id b seen := by
  refine ⟨hc, hm.withCache_frame id (some b), ?_⟩
  intro r hr
  rw [cacheFor_withCache ((hm.eligible?_eq b).trans hr)]
  exact huse _ (hm.reflects hr)

theorem withCache_of_ne (hm : h.Remembers g id b seen) (hne : id' ≠ id) {b' : Option Buffer}
    (hc : (g.withCache id' b' use).2.Consistent) :
    h.Remembers (g.withCache id' b' use).2 id b seen := by
  refine ⟨hc, hm.withCache_frame id' b', ?_⟩
  intro r hr
  rw [cacheFor_withCache_of_ne hne]
  exact hm.reflects hr

theorem read {buffers : Table Nat Buffer} (hm : h.Remembers g id b seen)
    (hb : buffers.get? id = some b)
    (hc : (g.withCache id' (buffers.get? id') use).2.Consistent)
    (huse : ∀ c : LineCache, c.Reflects b.lines seen → (use b c).2.Reflects b.lines seen) :
    h.Remembers (g.withCache id' (buffers.get? id') use).2 id b seen := by
  by_cases hid : id' = id
  · subst hid
    rw [hb] at hc ⊢
    exact hm.withCache hc huse
  · exact hm.withCache_of_ne hid hc

theorem draw {buffers : Table Nat Buffer} (hm : h.Remembers g id b seen)
    (hb : buffers.get? id = some b) (id' line : Nat) (w : Window) :
    h.Remembers (g.draw id' (buffers.get? id') line w).2 id b seen := by
  have hc := hm.consistent.draw id' (buffers.get? id') line w
  rw [draw_eq_withCache] at hc ⊢
  exact hm.read hb hc fun c hseen => hseen.spans line

theorem prepare {buffers : Table Nat Buffer} (hm : h.Remembers g id b seen)
    (hb : buffers.get? id = some b) (id' start stop : Nat) :
    h.Remembers (g.prepare id' (buffers.get? id') start stop) id b seen := by
  refine hm.read hb (hm.consistent.prepare id' _ start stop) ?_
  intro c hseen
  dsimp only
  split
  · exact hseen.spans _
  · exact hseen

end Remembers

end Highlighter

def WorkspaceCall.Spares (id : Nat) : WorkspaceCall → Prop
  | .prepare .. | .draw .. => True
  | .edit id' _ => id' ≠ id
  | _ => False

namespace Workspace

variable {w w' : Workspace} {id : Nat} {b : Buffer}

def setUse (w : Workspace) (id : Nat) (on : Bool) (kind : BufferKind) (filetype : Option Text) :
    Workspace :=
  { highlighter := { w.highlighter with enabled := on }
    buffers :=
      match w.buffers.get? id with
      | none => w.buffers
      | some b => w.buffers.insert id (b.usedAs kind filetype) }

def editAll (w : Workspace) (id : Nat) (edits : List Edit) : Workspace :=
  edits.foldl (fun w e => w.edit id e) w

/-- A buffer is used in another way while it is edited, and then as before. -/
def excursion (w : Workspace) (id : Nat) (b : Buffer) (on : Bool) (kind : BufferKind)
    (filetype : Option Text) (edits : List Edit) : Workspace :=
  ((w.setUse id on kind filetype).editAll id edits).setUse id w.highlighter.enabled b.kind
    b.filetype

theorem edit_of_not_eligible (hb : w.buffers.get? id = some b)
    (hr : w.highlighter.eligible? b = none) (e : Edit) :
    w.edit id e = ⟨w.highlighter, w.buffers.insert id (b.apply e).2⟩ := by
  cases he : e.range b.lines with
  | error err =>
    rw [edit_of_range_error hb he, Buffer.apply, he]
  | ok r =>
    have hafter := (w.highlighter.eligible?_apply b e).trans hr
    rw [edit_of_range hb he, Highlighter.announce_of_not_eligible hr,
      Highlighter.report_of_not_eligible hafter]

theorem editAll_of_not_eligible (hb : w.buffers.get? id = some b)
    (hr : w.highlighter.eligible? b = none) (edits : List Edit) :
    (w.editAll id edits).highlighter = w.highlighter ∧
      (w.editAll id edits).buffers.get? id = some (b.applyAll edits) ∧
      ∀ id', id ≠ id' → (w.editAll id edits).buffers.get? id' = w.buffers.get? id' := by
  induction edits generalizing w b with
  | nil => exact ⟨rfl, hb, fun _ _ => rfl⟩
  | cons e edits ih =>
    have hafter := (w.highlighter.eligible?_apply b e).trans hr
    have hget : (w.edit id e).buffers.get? id = some (b.apply e).2 := by
      rw [edit_of_not_eligible hb hr, Table.get?_insert, if_pos rfl]
    have hhighlighter : (w.edit id e).highlighter = w.highlighter := by
      rw [edit_of_not_eligible hb hr]
    obtain ⟨hh, hlast, hother⟩ := ih hget (by rwa [hhighlighter])
    refine ⟨hh.trans hhighlighter, hlast, ?_⟩
    intro id' hne
    rw [editAll, List.foldl_cons]
    refine (hother id' hne).trans ?_
    rw [edit_of_not_eligible hb hr, Table.get?_insert, if_neg hne]

theorem get?_setUse (hb : w.buffers.get? id = some b) (on : Bool) (kind : BufferKind)
    (filetype : Option Text) :
    (w.setUse id on kind filetype).buffers.get? id = some (b.usedAs kind filetype) := by
  rw [setUse, hb]
  dsimp only
  rw [Table.get?_insert, if_pos rfl]

theorem get?_setUse_of_ne {id' : Nat} (hne : id ≠ id') (w : Workspace) (on : Bool)
    (kind : BufferKind) (filetype : Option Text) :
    (w.setUse id on kind filetype).buffers.get? id' = w.buffers.get? id' := by
  unfold setUse
  split
  · rfl
  · dsimp only
    rw [Table.get?_insert, if_neg hne]

section Excursion

variable {on : Bool} {kind : BufferKind} {filetype : Option Text}

theorem excursion_eq (hb : w.buffers.get? id = some b)
    (hp : { w.highlighter with enabled := on }.eligible? (b.usedAs kind filetype) = none)
    (edits : List Edit) :
    (w.excursion id b on kind filetype edits).highlighter = w.highlighter ∧
      (w.excursion id b on kind filetype edits).buffers.get? id = some (b.applyAll edits) ∧
      ∀ id', id ≠ id' →
        (w.excursion id b on kind filetype edits).buffers.get? id' = w.buffers.get? id' := by
  obtain ⟨hh, hget, hother⟩ :=
    editAll_of_not_eligible (get?_setUse hb on kind filetype) hp edits
  refine ⟨?_, ?_, ?_⟩
  · rw [excursion, setUse, hh]
    rfl
  · rw [excursion, get?_setUse hget, Buffer.applyAll_usedAs, Option.some.injEq]
    exact b.applyAll_usedAs_self edits
  · intro id' hne
    rw [excursion, get?_setUse_of_ne hne, hother id' hne, get?_setUse_of_ne hne]

end Excursion

structure Remembers (h : Highlighter) (w : Workspace) (id : Nat) (b : Buffer)
    (seen : List Text) : Prop where
  buffer : w.buffers.get? id = some b
  highlighter : h.Remembers w.highlighter id b seen

variable {h : Highlighter} {seen : List Text}

theorem Remembers.edit {id' : Nat} (hm : w.Remembers h id b seen) (hne : id' ≠ id) (e : Edit) :
    (w.edit id' e).Remembers h id b seen := by
  cases hb : w.buffers.get? id' with
  | none =>
    rw [Workspace.edit, hb]
    exact hm
  | some b' =>
    have hget : ∀ b' : Buffer, (w.buffers.insert id' b').get? id = some b := by
      intro b'
      rw [Table.get?_insert, if_neg hne]
      exact hm.buffer
    cases he : e.range b'.lines with
    | error err =>
      rw [edit_of_range_error hb he]
      exact ⟨hget b', hm.highlighter⟩
    | ok r =>
      rw [edit_of_range hb he]
      refine ⟨hget _, ?_⟩
      have hconsistent := hm.highlighter.consistent
      have hbefore := hm.highlighter.withCache_of_ne hne (hconsistent.announce id' (some b') r)
      exact hbefore.withCache_of_ne hne (hbefore.consistent.report id' _ r)

theorem Remembers.perform {call : WorkspaceCall} (hm : w.Remembers h id b seen)
    (hs : call.Spares id) : (w.perform call).Remembers h id b seen := by
  cases call with
  | prepare id' start stop => exact ⟨hm.buffer, hm.highlighter.prepare hm.buffer id' start stop⟩
  | draw id' line win => exact ⟨hm.buffer, hm.highlighter.draw hm.buffer id' line win⟩
  | edit id' e => exact hm.edit hs e
  | _ => cases hs

theorem Runs.remembers {calls : List WorkspaceCall} (hr : Runs w calls w')
    (hs : ∀ call ∈ calls, call.Spares id) (hm : w.Remembers h id b seen) :
    w'.Remembers h id b seen := by
  induction hr with
  | nil w => exact hm
  | cons _ _ ih =>
    have hfirst := hm.perform (hs _ List.mem_cons_self)
    exact ih (fun call hc => hs call (List.mem_cons_of_mem _ hc)) hfirst

def DrawsFresh (w : Workspace) (id : Nat) : Prop :=
  ∀ b, w.buffers.get? id = some b → ∀ line win,
    (w.highlighter.draw id (some b) line win).1 = w.highlighter.drawFresh b line win

section Excursion

variable {on : Bool} {kind : BufferKind} {filetype : Option Text} {r : Registration}

theorem remembers_excursion (hw : w.Sound) (hb : w.buffers.get? id = some b)
    (hr : w.highlighter.eligible? b = some r)
    (hp : { w.highlighter with enabled := on }.eligible? (b.usedAs kind filetype) = none)
    (edits : List Edit) :
    (w.excursion id b on kind filetype edits).Remembers w.highlighter id (b.applyAll edits)
      (blend (w.highlighter.cacheFor id r).cache.lines.length b.lines (b.applyAll edits).lines) := by
  obtain ⟨hh, hget, -⟩ := excursion_eq hb hp edits
  refine ⟨hget, ?_, ?_, ?_⟩
  · rw [hh]
    exact hw.consistent
  · rw [hh]
  · intro s hs
    have hsame := w.highlighter.eligible?_applyAll b edits
    cases hr.symm.trans (hsame.symm.trans hs)
    rw [hh]
    exact (hw.current.coherent_cacheFor hb r).reflects_blend _

theorem sound_excursion (hw : w.Sound) (hb : w.buffers.get? id = some b)
    (hr : w.highlighter.eligible? b = some r)
    (hp : { w.highlighter with enabled := on }.eligible? (b.usedAs kind filetype) = none)
    {edits : List Edit}
    (hc : ∀ c, w.highlighter.caches.get? id = some c →
      c.cache.Coherent (b.applyAll edits).lines) :
    (w.excursion id b on kind filetype edits).Sound := by
  obtain ⟨hh, hget, hother⟩ := excursion_eq hb hp edits
  refine ⟨?_, ?_⟩
  · rw [hh]
    exact hw.consistent
  · intro id' b' c hb' hid
    rw [hh] at hid ⊢
    by_cases hne : id = id'
    · subst hne
      cases hget.symm.trans hb'
      have hsame := w.highlighter.eligible?_applyAll b edits
      exact .of_eligible (hsame.trans hr) (hc c hid)
    · exact hw.current id' b' c ((hother id' hne).symm.trans hb') hid

/-- A buffer that was edited unheard is drawn as a blend of its old and its new lines until
it is edited again. It is drawn right exactly if both look the same, and stays right
whatever happens if the records that were kept are those of the new lines. -/
theorem drawsFresh_after_excursion_iff {buffers : Table Nat Buffer} {calls : List WorkspaceCall}
    (hh : h.Reachable) (hnone : ∀ id, (buffers.get? id).isSome → h.caches.get? id = none)
    (hw : Runs ⟨h, buffers⟩ calls w) (hb : w.buffers.get? id = some b)
    (hr : w.highlighter.eligible? b = some r)
    (hp : { w.highlighter with enabled := on }.eligible? (b.usedAs kind filetype) = none)
    (edits : List Edit) :
    let after := w.excursion id b on kind filetype edits
    let edited := b.applyAll edits
    let seen := blend (w.highlighter.cacheFor id r).cache.lines.length b.lines edited.lines
    (∀ later v, Runs after later v → (∀ call ∈ later, call.Spares id) →
      v.buffers.get? id = some edited ∧ ∀ line win,
        (v.highlighter.draw id (some edited) line win).1 =
          w.highlighter.drawAs edited seen line win) ∧
    ((∀ later v, Runs after later v → (∀ call ∈ later, call.Spares id) → v.DrawsFresh id) ↔
      ∀ line win, w.highlighter.drawAs edited seen line win =
        w.highlighter.drawFresh edited line win) ∧
    ((∀ c, w.highlighter.caches.get? id = some c → c.cache.Coherent edited.lines) →
      ∀ later v, Runs after later v → v.DrawsFresh id) := by
  intro after edited seen
  have hsound := hw.sound (sound_of_caches_eq_none hh hnone)
  have hafter : after.Remembers w.highlighter id edited seen :=
    remembers_excursion hsound hb hr hp edits
  refine ⟨?_, ⟨?_, ?_⟩, ?_⟩
  · intro later v hv hs
    have hm := hv.remembers hs hafter
    exact ⟨hm.buffer, hm.highlighter.draw_eq⟩
  · -- The first draw after the excursion decides it.
    intro hfresh line win
    have hdraw := hfresh [] after (.nil after) (by simp) edited hafter.buffer line win
    rw [hafter.highlighter.draw_eq, hafter.highlighter.frame] at hdraw
    exact hdraw
  · intro heq later v hv hs b' hb' line win
    have hm := hv.remembers hs hafter
    cases hm.buffer.symm.trans hb'
    rw [hm.highlighter.draw_eq, heq, hm.highlighter.frame]
    rfl
  · intro hc later v hv b' hb' line win
    have hv := hv.sound (sound_excursion hsound hb hr hp hc)
    exact hv.current.draw_eq_drawFresh hv.consistent hb' line win

theorem drawsFresh_after_excursion_of_word :
    let b : Buffer := { lines := [['a']], name := ['n'], filetype := some Zig.name }
    let w := Workspace.perform ⟨.standard, (∅ : Table Nat Buffer).insert 7 b⟩ (.draw 7 0 ⟨0, 9⟩)
    w.highlighter.eligible? b = some ⟨0, Zig.language⟩ ∧
      w.highlighter.eligible? (b.usedAs .scratch b.filetype) = none ∧
      ∀ later v, Runs (w.excursion 7 b true .scratch b.filetype [.insert 0 0 ['b']]) later v →
        v.DrawsFresh 7 := by
  intro b w
  have hw : Runs ⟨.standard, (∅ : Table Nat Buffer).insert 7 b⟩ [.draw 7 0 ⟨0, 9⟩] w :=
    .cons trivial (.nil w)
  have hb : w.buffers.get? 7 = some b := rfl
  have hr : w.highlighter.eligible? b = some ⟨0, Zig.language⟩ := rfl
  have hp : w.highlighter.eligible? (b.usedAs .scratch b.filetype) = none := rfl
  have hkept : ∀ c, w.highlighter.caches.get? 7 = some c →
      c.cache.Coherent (b.applyAll [.insert 0 0 ['b']]).lines := by
    intro c hc
    cases hc
    exact ⟨by decide +kernel, by decide +kernel⟩
  have hiff := drawsFresh_after_excursion_iff .standard (fun _ _ => rfl) hw hb hr hp
    [.insert 0 0 ['b']]
  exact ⟨hr, hp, hiff.2.2 hkept⟩

/-- A comment that is moved by a blank is drawn where it was, whichever way its buffer was
passed over. -/
theorem draw_ne_drawFresh_after_excursion :
    let b : Buffer := { lines := [['/', '/']], name := ['n'], filetype := some Zig.name }
    let w := Workspace.perform ⟨.standard, (∅ : Table Nat Buffer).insert 7 b⟩ (.draw 7 0 ⟨0, 9⟩)
    let edited := b.applyAll [.insert 0 0 [' ']]
    (w.highlighter.eligible? b).isSome ∧
      ∀ use ∈ [(true, BufferKind.scratch, b.filetype), (true, .special, b.filetype),
          (true, .file, none), (true, .file, some ['?']), (false, .file, b.filetype)],
        let after := w.excursion 7 b use.1 use.2.1 use.2.2 [.insert 0 0 [' ']]
        ({ w.highlighter with enabled := use.1 }.eligible? (b.usedAs use.2.1 use.2.2)).isNone ∧
          after.buffers.get? 7 = some edited ∧
          (after.highlighter.draw 7 (some edited) 0 ⟨0, 9⟩).1 ≠
            after.highlighter.drawFresh edited 0 ⟨0, 9⟩ := by
  decide +kernel

end Excursion

end Workspace

end Highlight
