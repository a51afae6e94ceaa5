import Highlight.Toml.Reader

/-!
# Tables in the order of their keys

A document that was read lists its entries in the byte order of their keys, and so does each
table in it (`keyOrdered_of_parse?`): whatever finishes a table sorts its entries, and a draft
holds no finished table before it is closed.
-/

namespace Highlight

namespace Text

theorem le_total (t u : Text) : le t u ∨ le u t := by
  induction t generalizing u with
  | nil => exact .inl rfl
  | cons c t ih =>
    cases u with
    | nil => exact .inr rfl
    | cons d u =>
      simp only [le, Bool.or_eq_true, decide_eq_true_eq, Bool.and_eq_true, beq_iff_eq]
      rcases Nat.lt_trichotomy c.val.toNat d.val.toNat with h | h | h
      · exact .inl (.inl h)
      · have hc : c = d := Char.ext (UInt32.toNat_inj.1 h)
        exact (ih u).imp (fun htu => .inr ⟨hc, htu⟩) fun hut => .inr ⟨hc.symm, hut⟩
      · exact .inr (.inl h)

theorem le_trans {t u v : Text} (htu : le t u) (huv : le u v) : le t v := by
  induction t generalizing u v with
  | nil => rfl
  | cons c t ih =>
    cases u with
    | nil => cases htu
    | cons d u =>
      cases v with
      | nil => cases huv
      | cons e v =>
        simp only [le, Bool.or_eq_true, decide_eq_true_eq, Bool.and_eq_true, beq_iff_eq] at *
        rcases htu with hcd | ⟨rfl, htu⟩
        · rcases huv with hde | ⟨rfl, -⟩
          · exact .inl (UInt32.lt_trans hcd hde)
          · exact .inl hcd
        · rcases huv with hde | ⟨rfl, huv⟩
          · exact .inl hde
          · exact .inr ⟨rfl, ih htu huv⟩

end Text

namespace Toml

namespace Entries

def KeyOrdered (es : Entries) : Prop := es.Pairwise fun e f => Text.le e.1 f.1

theorem mem_insertSorted {e f : Text × Value} {es : Entries} :
    f ∈ insertSorted e es ↔ f = e ∨ f ∈ es := by
  induction es with
  | nil => simp [insertSorted]
  | cons g es ih =>
    unfold insertSorted
    split
    · exact List.mem_cons
    · rw [List.mem_cons, ih, List.mem_cons, or_left_comm]

theorem KeyOrdered.insertSorted {es : Entries} (h : es.KeyOrdered) (e : Text × Value) :
    (insertSorted e es).KeyOrdered := by
  induction es with
  | nil => exact List.pairwise_singleton _ _
  | cons f es ih =>
    obtain ⟨hf, hes⟩ := List.pairwise_cons.1 h
    unfold Entries.insertSorted
    split
    · next hle =>
      refine List.pairwise_cons.2 ⟨fun g hg => ?_, h⟩
      rcases List.mem_cons.1 hg with rfl | hg
      · exact hle
      · exact Text.le_trans hle (hf g hg)
    · next hle =>
      refine List.pairwise_cons.2 ⟨fun g hg => ?_, ih hes⟩
      rcases mem_insertSorted.1 hg with rfl | hg
      · exact (Text.le_total g.1 f.1).resolve_left hle
      · exact hf g hg

theorem keyOrdered_ofList (es : List (Text × Value)) : (ofList es).KeyOrdered := by
  induction es with
  | nil => exact List.Pairwise.nil
  | cons e es ih => exact ih.insertSorted e

theorem mem_ofList {e : Text × Value} {es : List (Text × Value)} : e ∈ ofList es ↔ e ∈ es := by
  induction es with
  | nil => exact Iff.rfl
  | cons f es ih => rw [List.mem_cons, ← ih]; exact mem_insertSorted

end Entries

/-- A node that is no finished table. -/
def Node.IsOpen : Node → Prop
  | .value (.table _) => False
  | _ => True

def Draft.IsOpen (d : Draft) : Prop := ∀ e ∈ d, e.2.IsOpen

namespace Draft

variable {d d' : Draft} {key : Text} {n : Node} {path : List Text} {origin made : Origin}

theorem isOpen_nil : IsOpen [] := by
  intro e he
  cases he

theorem IsOpen.put (h : d.IsOpen) (hn : n.IsOpen) (key : Text) : (d.put key n).IsOpen := by
  induction d with
  | nil => exact List.forall_mem_singleton.2 hn
  | cons e d ih =>
    obtain ⟨he, hd⟩ := List.forall_mem_cons.1 h
    unfold Draft.put
    split
    · exact List.forall_mem_cons.2 ⟨hn, hd⟩
    · exact List.forall_mem_cons.2 ⟨he, ih hd⟩

theorem IsOpen.alter? {f : Origin → Draft → Option Draft} (h : d.IsOpen)
    (hf : f origin d = some d' → d'.IsOpen) (ha : alter? made f path origin d = some d') :
    d'.IsOpen := by
  have htable (origin : Origin) (inner : Draft) : (Node.table origin inner).IsOpen := trivial
  have htables (ts : List Node) : (Node.tables ts).IsOpen := trivial
  cases path with
  | nil => exact hf ha
  | cons key path =>
    simp only [Draft.alter?] at ha
    split at ha
    · obtain ⟨inner, -, ha⟩ := Option.bind_eq_some_iff.1 ha
      cases ha
      exact h.put (htable _ _) key
    · cases ha
    · cases ha
    · split at ha
      · cases ha
      · obtain ⟨inner, -, ha⟩ := Option.bind_eq_some_iff.1 ha
        cases ha
        exact h.put (htable _ _) key
    · obtain ⟨last, -, ha⟩ := Option.bind_eq_some_iff.1 ha
      cases ha
      exact h.put (htables _) key
    · cases ha

theorem IsOpen.concat (h : d.IsOpen) (hn : n.IsOpen) (key : Text) : IsOpen (d ++ [(key, n)]) :=
  List.forall_mem_append.2 ⟨h, List.forall_mem_singleton.2 hn⟩

theorem IsOpen.addKey? (h : d.IsOpen) (hn : n.IsOpen)
    (ha : addKey? path key n origin d = some d') : d'.IsOpen := by
  refine h.alter? (fun hf => ?_) ha
  split at hf
  · cases hf
  · split at hf
    · cases hf
    · cases hf
      exact h.concat hn key

theorem IsOpen.addAt? {header : List Text} (h : d.IsOpen) (hn : n.IsOpen)
    (ha : addAt? header path key n d = some d') : d'.IsOpen :=
  h.alter? (h.addKey? hn) ha

theorem IsOpen.openTable? (h : d.IsOpen) (ha : openTable? path key d = some d') : d'.IsOpen := by
  have htable (inner : Draft) : (Node.table .header inner).IsOpen := trivial
  refine h.alter? (fun hf => ?_) ha
  split at hf
  · cases hf
    exact h.put (htable []) key
  · cases hf
    exact IsOpen.concat (fun e he => h e (List.mem_filter.1 he).1) (htable _) key
  · cases hf

theorem IsOpen.openNext? (h : d.IsOpen) (ha : openNext? path key d = some d') : d'.IsOpen := by
  have htables (ts : List Node) : (Node.tables ts).IsOpen := trivial
  refine h.alter? (fun hf => ?_) ha
  split at hf
  · cases hf
    exact h.put (htables _) key
  · cases hf
    exact h.put (htables _) key
  · cases hf

end Draft

theorem Scalar.isOpen_of_ofText? {t : Text} {v : Value} (h : ofText? t = some v) :
    (Node.value v).IsOpen := by
  simp only [ofText?, Option.or_eq_some_iff, Option.map_eq_some_iff] at h
  rcases h with ⟨-, -, rfl⟩ | ⟨-, h⟩
  · trivial
  rcases h with ⟨-, -, rfl⟩ | ⟨-, h⟩
  · trivial
  rcases h with ⟨-, -, rfl⟩ | ⟨-, h⟩
  · trivial
  rcases h with ⟨-, -, rfl⟩ | ⟨-, -, -, rfl⟩
  · trivial
  · trivial

theorem isOpen_of_node? {depth : Nat} {t rest : Text} {n : Node}
    (h : node? depth t = some (n, rest)) : n.IsOpen := by
  unfold node? at h
  split at h
  · obtain ⟨r, -, h⟩ := Option.map_eq_some_iff.1 h
    cases h
    trivial
  · obtain ⟨r, -, h⟩ := Option.map_eq_some_iff.1 h
    cases h
    trivial
  · split at h
    · cases h
    · obtain ⟨r, -, h⟩ := Option.map_eq_some_iff.1 h
      cases h
      trivial
  · split at h
    · cases h
    · unfold inlineTable? at h
      dsimp only at h
      split at h
      · cases h
        trivial
      · obtain ⟨⟨d, t⟩, -, h⟩ := Option.bind_eq_some_iff.1 h
        cases h
        trivial
  · obtain ⟨r, hr, h⟩ := Option.map_eq_some_iff.1 h
    cases h
    obtain ⟨v, hv, hr⟩ := Option.bind_eq_some_iff.1 hr
    cases hr
    exact Scalar.isOpen_of_ofText? hv

theorem isOpen_of_pair? {depth : Nat} {path : List Text} {key t rest : Text} {n : Node}
    (h : pair? (node? depth) t = some (path, key, n, rest)) : n.IsOpen := by
  obtain ⟨⟨path, key, t⟩, -, h⟩ := Option.bind_eq_some_iff.1 h
  obtain ⟨t, -, h⟩ := Option.bind_eq_some_iff.1 h
  obtain ⟨⟨n, t⟩, hn, h⟩ := Option.bind_eq_some_iff.1 h
  cases h
  exact isOpen_of_node? hn

theorem isOpen_of_lines? {rounds : Nat} {s s' : DocumentState} {t : Text} (hs : s.draft.IsOpen)
    (h : lines? rounds s t = some s') : s'.draft.IsOpen := by
  induction rounds generalizing s t with
  | zero =>
    unfold lines? at h
    split at h
    · cases h
      exact hs
    · cases h
  | succ rounds ih =>
    unfold lines? at h
    split at h
    · cases h
      exact hs
    · dsimp only at h
      split at h
      · exact ih hs h
      · obtain ⟨t, -, h⟩ := Option.bind_eq_some_iff.1 h
        exact ih hs h
      · obtain ⟨⟨path, key, t⟩, -, h⟩ := Option.bind_eq_some_iff.1 h
        obtain ⟨d, hd, h⟩ := Option.bind_eq_some_iff.1 h
        exact ih (hs.openNext? hd) h
      · obtain ⟨⟨path, key, t⟩, -, h⟩ := Option.bind_eq_some_iff.1 h
        obtain ⟨d, hd, h⟩ := Option.bind_eq_some_iff.1 h
        exact ih (hs.openTable? hd) h
      · obtain ⟨⟨path, key, n, t⟩, hn, h⟩ := Option.bind_eq_some_iff.1 h
        obtain ⟨d, hd, h⟩ := Option.bind_eq_some_iff.1 h
        obtain ⟨t, -, h⟩ := Option.bind_eq_some_iff.1 h
        exact ih (hs.addAt? (isOpen_of_pair? hn) hd) h

theorem Node.IsOpen.keyOrdered {n : Node} {es : Entries} (hn : n.IsOpen)
    (h : n.close? = some (.table es)) : es.KeyOrdered := by
  cases n with
  | value v =>
    cases h
    cases hn
  | array ns =>
    obtain ⟨vs, -, h⟩ := Option.map_eq_some_iff.1 h
    cases h
  | table origin d =>
    unfold Node.close? at h
    split at h
    · obtain ⟨v, -, h⟩ := Option.map_eq_some_iff.1 h
      cases h
    · obtain ⟨closed, -, h⟩ := Option.map_eq_some_iff.1 h
      cases h
      exact Entries.keyOrdered_ofList closed
  | tables ts =>
    obtain ⟨vs, -, h⟩ := Option.map_eq_some_iff.1 h
    cases h

theorem exists_mem_of_closeEntries? {d : Draft} {es : Entries} {key : Text} {v : Value}
    (h : closeEntries? d = some es) (hv : (key, v) ∈ es) :
    ∃ n, (key, n) ∈ d ∧ n.close? = some v := by
  induction d generalizing es with
  | nil =>
    cases h
    cases hv
  | cons e d ih =>
    obtain ⟨key', n⟩ := e
    unfold closeEntries? at h
    obtain ⟨w, hw, h⟩ := Option.bind_eq_some_iff.1 h
    obtain ⟨rest, hrest, h⟩ := Option.bind_eq_some_iff.1 h
    cases h
    rcases List.mem_cons.1 hv with heq | hv
    · cases heq
      exact ⟨n, List.mem_cons_self, hw⟩
    · obtain ⟨m, hm, hclose⟩ := ih hrest hv
      exact ⟨m, List.mem_cons_of_mem _ hm, hclose⟩

theorem keyOrdered_of_parse? {t : Text} {es : Entries} (h : parse? t = some es) :
    es.KeyOrdered ∧
      ∀ key (inner : Entries), es.get? key = some (.table inner) → inner.KeyOrdered := by
  obtain ⟨s, hs, h⟩ := Option.bind_eq_some_iff.1 h
  obtain ⟨closed, hclosed, h⟩ := Option.bind_eq_some_iff.1 h
  cases h
  refine ⟨Entries.keyOrdered_ofList closed, fun key inner hget => ?_⟩
  obtain ⟨⟨key, v⟩, he, rfl⟩ := Option.map_eq_some_iff.1 hget
  have hmem := Entries.mem_ofList.1 (List.mem_of_find?_eq_some he)
  obtain ⟨n, hn, hclose⟩ := exists_mem_of_closeEntries? hclosed hmem
  exact (isOpen_of_lines? Draft.isOpen_nil hs _ hn).keyOrdered hclose

end Toml

end Highlight
