import Highlight.Lexicon

/-!
# The characters of a match

A text that a pattern reads consists of characters of the pattern's classes, and its last
character can be told from the pattern too. Of a number that gives what a scan has to know:
its literal is made of word characters, points and signs, and it ends in a word character, so
that a word that begins behind it is no part of it.
-/

namespace Highlight

namespace CharClass

def isSubset (k l : CharClass) : Bool :=
  !k.negated && !l.negated && k.ranges.all fun r => l.ranges.any fun q => q.1 ≤ r.1 && r.2 ≤ q.2

def word : CharClass := ⟨[('0', '9'), ('A', 'Z'), ('_', '_'), ('a', 'z')], false⟩

def literal : CharClass :=
  ⟨[('0', '9'), ('A', 'Z'), ('_', '_'), ('a', 'z'), ('.', '.'), ('+', '+'), ('-', '-')], false⟩

variable {k l : CharClass} {c : Char}

theorem contains_iff (h : k.negated = false) :
    k.contains c = true ↔ ∃ r ∈ k.ranges, r.1 ≤ c ∧ c ≤ r.2 := by
  rw [contains, h, Bool.bne_false, List.any_eq_true]
  simp only [Bool.and_eq_true, decide_eq_true_eq]

theorem contains_of_isSubset (h : k.isSubset l) (hc : k.contains c) : l.contains c := by
  simp only [isSubset, Bool.and_eq_true, Bool.not_eq_true', List.all_eq_true, List.any_eq_true,
    decide_eq_true_eq] at h
  obtain ⟨⟨hk, hl⟩, hranges⟩ := h
  obtain ⟨r, hr, hlow, hhigh⟩ := (contains_iff hk).1 hc
  obtain ⟨q, hq, hqlow, hqhigh⟩ := hranges r hr
  exact (contains_iff hl).2 ⟨q, hq, Char.le_trans hqlow hlow, Char.le_trans hhigh hqhigh⟩

theorem isWordChar_of_contains_word (h : word.contains c) : isWordChar c := by
  obtain ⟨r, hr, hlow, hhigh⟩ := (contains_iff rfl).1 h
  simp only [word, List.mem_cons, List.not_mem_nil, or_false] at hr
  simp only [isWordChar, Char.isAlphanum, Bool.or_eq_true, isAlpha_iff, Char.isDigit,
    Bool.and_eq_true, decide_eq_true_eq]
  rcases hr with rfl | rfl | rfl | rfl
  · exact .inl (.inr ⟨hlow, hhigh⟩)
  · exact .inl (.inl (.inl ⟨hlow, hhigh⟩))
  · exact .inr (Char.le_antisymm hhigh hlow)
  · exact .inl (.inl (.inr ⟨hlow, hhigh⟩))

end CharClass

namespace Pattern

def readsOnly (k : CharClass) : Pattern → Bool
  | one l => l.isSubset k
  | seq p q => p.readsOnly k && q.readsOnly k
  | alt p q => p.readsOnly k && q.readsOnly k
  | star p => p.readsOnly k
  | empty | atStart | atEnd => true

def isNonempty : Pattern → Bool
  | one _ => true
  | seq p q => p.isNonempty || q.isNonempty
  | alt p q => p.isNonempty && q.isNonempty
  | star _ | empty | atStart | atEnd => false

def endsIn (k : CharClass) : Pattern → Bool
  | one l => l.isSubset k
  | seq p q => q.endsIn k && (q.isNonempty || p.endsIn k)
  | alt p q => p.endsIn k && q.endsIn k
  | star p => p.endsIn k
  | empty | atStart | atEnd => true

variable {p : Pattern} {k : CharClass} {u : Text}

theorem Reads.contains (h : p.Reads u) (hk : p.readsOnly k) : ∀ c ∈ u, k.contains c := by
  induction h with
  | one hc =>
    intro d hd
    rw [List.mem_singleton.1 hd]
    exact CharClass.contains_of_isSubset hk hc
  | seq _ _ ihp ihq =>
    obtain ⟨hp, hq⟩ := Bool.and_eq_true_iff.1 hk
    intro d hd
    exact (List.mem_append.1 hd).elim (ihp hp d) (ihq hq d)
  | altLeft _ ih => exact ih (Bool.and_eq_true_iff.1 hk).1
  | altRight _ ih => exact ih (Bool.and_eq_true_iff.1 hk).2
  | starAppend _ _ ihp ihs =>
    intro d hd
    exact (List.mem_append.1 hd).elim (ihp hk d) (ihs hk d)
  | empty | atStart | atEnd | starNil => simp

theorem Reads.ne_nil (h : p.Reads u) (hp : p.isNonempty) : u ≠ [] := by
  induction h with
  | one _ => exact List.cons_ne_nil _ _
  | seq _ _ ihp ihq =>
    rcases Bool.or_eq_true_iff.1 hp with hp | hq
    · exact List.append_ne_nil_of_left_ne_nil (ihp hp) _
    · exact List.append_ne_nil_of_right_ne_nil _ (ihq hq)
  | altLeft _ ih => exact ih (Bool.and_eq_true_iff.1 hp).1
  | altRight _ ih => exact ih (Bool.and_eq_true_iff.1 hp).2
  | empty | atStart | atEnd | starNil | starAppend => cases hp

theorem Reads.contains_getLast? (h : p.Reads u) (hk : p.endsIn k) :
    ∀ c ∈ u.getLast?, k.contains c := by
  induction h with
  | one hc =>
    intro d hd
    cases hd
    exact CharClass.contains_of_isSubset hk hc
  | @seq p q u v _ hv ihp ihq =>
    obtain ⟨hq, hp⟩ := Bool.and_eq_true_iff.1 hk
    rw [List.getLast?_append]
    cases hl : v.getLast? with
    | some c => exact fun d hd => ihq hq d (hl.trans hd)
    | none =>
      -- The second part has read nothing, which it may only do if the first part ends well.
      rcases Bool.or_eq_true_iff.1 hp with hne | hp
      · exact absurd (List.getLast?_eq_none_iff.1 hl) (hv.ne_nil hne)
      · exact ihp hp
  | altLeft _ ih => exact ih (Bool.and_eq_true_iff.1 hk).1
  | altRight _ ih => exact ih (Bool.and_eq_true_iff.1 hk).2
  | @starAppend p u v _ _ ihp ihs =>
    rw [List.getLast?_append]
    cases hl : v.getLast? with
    | some c => exact fun d hd => ihs hk d (hl.trans hd)
    | none => exact ihp hk
  | empty | atStart | atEnd | starNil => simp

theorem findFrom?_anchored_succ (p : Pattern) (n : Nat) (t : Text) :
    (anchored p).findFrom? (n + 1) t = none := by
  induction t generalizing n with
  | nil => rfl
  | cons c t ih => exact ih (n + 1)

theorem find?_anchored (p : Pattern) (t : Text) :
    (anchored p).find? t = (p.ends (0, t)).head?.map fun e => (0, e.1) := by
  have hends : (anchored p).ends (0, t) = p.ends (0, t) := List.flatMap_singleton p.ends (0, t)
  unfold find? findFrom?
  rw [hends]
  cases (p.ends (0, t)).head? with
  | some e => rfl
  | none =>
    cases t with
    | nil => rfl
    | cons c t => exact findFrom?_anchored_succ p 0 t

theorem reads_of_reach?_anchored {t : Text} {n : Nat}
    (h : (anchored p).matcher.reach? t = some n) : p.Reads (t.take n) := by
  obtain ⟨start, hf, -⟩ := Matcher.reach?_eq_some_iff.1 h
  change (anchored p).find? t = _ at hf
  rw [find?_anchored] at hf
  obtain ⟨e, he, heq⟩ := Option.map_eq_some_iff.1 hf
  cases heq
  obtain ⟨u, hu, hn, hread⟩ := exists_reads_of_mem_ends (List.mem_of_head? he)
  dsimp only at hu hn
  rwa [hn, hu, Nat.zero_add, List.take_left]

theorem contains_of_reach?_standardNumber {t : Text} {n : Nat}
    (h : standardNumber.matcher.reach? t = some n) : ∀ c ∈ t.take n, CharClass.literal.contains c :=
  (reads_of_reach?_anchored h).contains (by decide)

theorem isWordChar_getLast?_of_reach?_standardNumber {t : Text} {n : Nat}
    (h : standardNumber.matcher.reach? t = some n) : ∀ c ∈ (t.take n).getLast?, isWordChar c := by
  intro c hc
  have hword : ∀ c ∈ (t.take n).getLast?, CharClass.word.contains c :=
    (reads_of_reach?_anchored h).contains_getLast? (by decide)
  exact CharClass.isWordChar_of_contains_word (hword c hc)

end Pattern

end Highlight
