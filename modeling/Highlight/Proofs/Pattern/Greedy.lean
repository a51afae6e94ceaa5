import Highlight.Proofs.Pattern.Lookahead

/-!
# Patterns whose preferred match is the longest

A match prefers left alternatives and more repetitions, which in general is not the longest
match. It is if one character always decides how a match goes on: then the ends of a match
are listed from the longest to the shortest (`Greedy.decreasing`, `greedy_ends`). Whether
that is so can be computed from the classes that a match may begin with and go on with
(`isDeterministic`). Every text that a pattern without anchors reads is found among the ends
(`mem_ends_of_reads`).
-/

namespace Highlight

namespace CharClass

def isApart (k l : CharClass) : Bool :=
  !k.negated && !l.negated && k.ranges.all fun r => l.ranges.all fun q => r.2 < q.1 || q.2 < r.1

def areApart (ks ls : List CharClass) : Bool := ks.all fun k => ls.all fun l => k.isApart l

theorem not_contains_of_isApart {k l : CharClass} {c : Char} (h : k.isApart l)
    (hk : k.contains c) : ¬ l.contains c := by
  simp only [isApart, Bool.and_eq_true, Bool.not_eq_true', List.all_eq_true, Bool.or_eq_true,
    decide_eq_true_eq] at h
  obtain ⟨⟨hkn, hln⟩, hranges⟩ := h
  intro hl
  obtain ⟨r, hr, hrlow, hrhigh⟩ := (contains_iff hkn).1 hk
  obtain ⟨q, hq, hqlow, hqhigh⟩ := (contains_iff hln).1 hl
  rcases hranges r hr q hq with hlt | hlt
  · exact Char.not_le.2 hlt (Char.le_trans hqlow hrhigh)
  · exact Char.not_le.2 hlt (Char.le_trans hrlow hqhigh)

end CharClass

namespace Pattern

/-- The classes of the characters that a match may begin with. -/
def firsts : Pattern → List CharClass
  | one k => [k]
  | seq p q => p.firsts ++ if p.isNonempty then [] else q.firsts
  | alt p q => p.firsts ++ q.firsts
  | star p => p.firsts
  | empty | atStart | atEnd => []

/-- The classes of the characters behind an end of a match, if the match may go on there. -/
def nexts : Pattern → List CharClass
  | seq p q => q.nexts ++ if q.isNonempty then [] else p.nexts
  | alt p q => p.nexts ++ q.nexts ++ p.firsts
  | star p => p.nexts ++ p.firsts
  | empty | one _ | atStart | atEnd => []

def isDeterministic : Pattern → Bool
  | seq p q => p.isDeterministic && q.isDeterministic && CharClass.areApart p.nexts q.firsts
  | alt p q => p.isDeterministic && q.isDeterministic && p.isNonempty &&
      CharClass.areApart p.firsts q.firsts
  | star p => p.isDeterministic && p.isNonempty && CharClass.areApart p.nexts p.firsts
  | empty | one _ | atStart | atEnd => true

def isAnchorFree : Pattern → Bool
  | seq p q => p.isAnchorFree && q.isAnchorFree
  | alt p q => p.isAnchorFree && q.isAnchorFree
  | star p => p.isAnchorFree
  | empty | one _ => true
  | atStart | atEnd => false

def Cursor.BeginsIn (ks : List CharClass) (s : Cursor) : Prop :=
  ∃ k ∈ ks, ∃ c t, s.2 = c :: t ∧ k.contains c

/-- The ends of matches from each cursor, the longest match first. A match begins with a
character of the first classes, and goes on behind another end with one of the next classes. -/
structure Greedy (firsts nexts : List CharClass) (f : Cursor → List Cursor) : Prop where
  passes : ∀ {s e}, e ∈ f s → ∃ u, s.2 = u ++ e.2 ∧ e.1 = s.1 + u.length
  begins : ∀ {s e}, e ∈ f s → s.1 < e.1 → s.BeginsIn firsts
  goesOn : ∀ {s e e'}, e ∈ f s → e' ∈ f s → e.1 < e'.1 → e.BeginsIn nexts
  decreasing : ∀ s, (f s).Pairwise fun e e' => e'.1 < e.1

variable {s e e' : Cursor} {ks ls ns firsts nexts : List CharClass} {f g : Cursor → List Cursor}

theorem Cursor.BeginsIn.mono (h : s.BeginsIn ks) (hsub : ks ⊆ ls) : s.BeginsIn ls := by
  obtain ⟨k, hk, hc⟩ := h
  exact ⟨k, hsub hk, hc⟩

theorem not_beginsIn_of_areApart (h : CharClass.areApart ks ls) (hk : s.BeginsIn ks) :
    ¬ s.BeginsIn ls := by
  rintro ⟨l, hl, c, t, hs, hlc⟩
  obtain ⟨k, hk, d, u, hs', hkd⟩ := hk
  obtain ⟨rfl, -⟩ := List.cons.inj (hs.symm.trans hs')
  simp only [CharClass.areApart, List.all_eq_true] at h
  exact CharClass.not_contains_of_isApart (h k hk l hl) hkd hlc

namespace Greedy

theorem le (h : Greedy firsts nexts f) (he : e ∈ f s) : s.1 ≤ e.1 := by
  obtain ⟨u, -, hn⟩ := h.passes he
  omega

theorem eq_of_fst_eq (h : Greedy firsts nexts f) (he : e ∈ f s) (he' : e' ∈ f s)
    (heq : e.1 = e'.1) : e = e' := by
  obtain ⟨u, hu, hn⟩ := h.passes he
  obtain ⟨u', hu', hn'⟩ := h.passes he'
  have hrest := List.append_inj (hu.symm.trans hu') (by omega)
  exact Prod.ext heq hrest.2

theorem eq_of_fst_eq_start (h : Greedy firsts nexts f) (he : e ∈ f s) (heq : e.1 = s.1) :
    e = s := by
  obtain ⟨u, hu, hn⟩ := h.passes he
  have hnil : u = [] := List.eq_nil_of_length_eq_zero (by omega)
  rw [hnil, List.nil_append] at hu
  exact Prod.ext heq hu.symm

theorem stays (hf : Greedy firsts nexts f) (hg : Greedy ks ls g)
    (hapart : CharClass.areApart nexts ks) (he : e ∈ f s) (he' : e' ∈ f s) (hlt : e.1 < e'.1)
    {x : Cursor} (hx : x ∈ g e) : x = e := by
  refine hg.eq_of_fst_eq_start hx (Nat.le_antisymm (Nat.le_of_not_lt fun hmoves => ?_) (hg.le hx))
  exact not_beginsIn_of_areApart hapart (hf.goesOn he he' hlt) (hg.begins hx hmoves)

theorem decreasing_flatMap (hf : Greedy firsts nexts f) (hg : Greedy ks ls g)
    (hapart : CharClass.areApart nexts ks) (s : Cursor) :
    ((f s).flatMap g).Pairwise fun e e' => e'.1 < e.1 := by
  refine List.pairwise_flatMap.2 ⟨fun e _ => hg.decreasing e, ?_⟩
  refine List.Pairwise.imp_of_mem ?_ (hf.decreasing s)
  intro e e' he he' hlt x hx x' hx'
  rw [hf.stays hg hapart he' he hlt hx']
  exact Nat.lt_of_lt_of_le hlt (hg.le hx)

theorem goesOn_flatMap (hf : Greedy firsts nexts f) (hg : Greedy ks ls g)
    (hapart : CharClass.areApart nexts ks) {x x' : Cursor} (hx : x ∈ (f s).flatMap g)
    (hx' : x' ∈ (f s).flatMap g) (hlt : x.1 < x'.1) :
    x.BeginsIn ls ∨ (x ∈ f s ∧ x ∈ g x ∧ x.BeginsIn nexts) := by
  obtain ⟨e, he, hx⟩ := List.mem_flatMap.1 hx
  obtain ⟨e', he', hx'⟩ := List.mem_flatMap.1 hx'
  rcases Nat.lt_trichotomy e.1 e'.1 with hlt' | heq | hgt
  · obtain rfl := hf.stays hg hapart he he' hlt' hx
    exact .inr ⟨he, hx, hf.goesOn he he' hlt'⟩
  · obtain rfl := hf.eq_of_fst_eq he he' heq
    exact .inl (hg.goesOn hx hx' hlt)
  · have hle := hg.le hx
    rw [hf.stays hg hapart he' he hgt hx'] at hlt
    omega

theorem passes_flatMap (hf : Greedy firsts nexts f) (hg : Greedy ks ls g)
    (he : e ∈ (f s).flatMap g) : ∃ u, s.2 = u ++ e.2 ∧ e.1 = s.1 + u.length := by
  obtain ⟨m, hm, he⟩ := List.mem_flatMap.1 he
  obtain ⟨u, hu, hn⟩ := hf.passes hm
  obtain ⟨v, hv, hn'⟩ := hg.passes he
  refine ⟨u ++ v, by rw [hu, hv, List.append_assoc], ?_⟩
  rw [hn', hn, List.length_append, Nat.add_assoc]

theorem begins_flatMap (hf : Greedy firsts nexts f) (hg : Greedy ks ls g)
    (he : e ∈ (f s).flatMap g) (hlt : s.1 < e.1) :
    s.BeginsIn firsts ∨ (s ∈ f s ∧ s.BeginsIn ks) := by
  obtain ⟨m, hm, hend⟩ := List.mem_flatMap.1 he
  rcases Nat.lt_or_eq_of_le (hf.le hm) with hlt' | heq
  · exact .inl (hf.begins hm hlt')
  · obtain rfl := hf.eq_of_fst_eq_start hm heq.symm
    exact .inr ⟨hm, hg.begins hend hlt⟩

theorem of_stays (h : ∀ s, f s = [s] ∨ f s = []) : Greedy firsts nexts f := by
  have hmem {s e : Cursor} (he : e ∈ f s) : e = s := by
    rcases h s with hs | hs
    · exact List.mem_singleton.1 (hs ▸ he)
    · rw [hs] at he
      cases he
  refine ⟨?_, ?_, ?_, ?_⟩
  · intro s e he
    exact ⟨[], by rw [hmem he, List.nil_append], by rw [hmem he]; rfl⟩
  · intro s e he hlt
    rw [hmem he] at hlt
    exact absurd hlt (Nat.lt_irrefl _)
  · intro s e e' he he' hlt
    rw [hmem he, hmem he'] at hlt
    exact absurd hlt (Nat.lt_irrefl _)
  · intro s
    rcases h s with hs | hs
    · rw [hs]
      exact List.pairwise_singleton _ s
    · rw [hs]
      exact .nil

theorem repeatEnds (hf : Greedy firsts nexts f) (hne : ∀ {s e}, e ∈ f s → s.1 < e.1)
    (hapart : CharClass.areApart nexts firsts) (bound : Nat) :
    Greedy firsts (nexts ++ firsts) (repeatEnds f bound) := by
  induction bound with
  | zero => exact of_stays fun s => .inl rfl
  | succ bound ih =>
    have heq (s : Cursor) : Pattern.repeatEnds f (bound + 1) s =
        (f s).flatMap (Pattern.repeatEnds f bound) ++ [s] := by
      rw [Pattern.repeatEnds]
      congr 1
      exact List.flatMap_congr fun e he => if_pos (hne he)
    have hmore {s e : Cursor} (he : e ∈ (f s).flatMap (Pattern.repeatEnds f bound)) :
        s.1 < e.1 := by
      obtain ⟨m, hm, he⟩ := List.mem_flatMap.1 he
      exact Nat.lt_of_lt_of_le (hne hm) (ih.le he)
    have hbegins {s e : Cursor} (he : e ∈ (f s).flatMap (Pattern.repeatEnds f bound)) :
        s.BeginsIn firsts :=
      (hf.begins_flatMap ih he (hmore he)).elim id And.right
    have hcases {s e : Cursor} (he : e ∈ Pattern.repeatEnds f (bound + 1) s) :
        e ∈ (f s).flatMap (Pattern.repeatEnds f bound) ∨ e = s := by
      rwa [heq, List.mem_append, List.mem_singleton] at he
    refine ⟨?_, ?_, ?_, ?_⟩
    · intro s e he
      rcases hcases he with he | rfl
      · exact hf.passes_flatMap ih he
      · exact ⟨[], rfl, rfl⟩
    · intro s e he hlt
      rcases hcases he with he | rfl
      · exact hbegins he
      · exact absurd hlt (Nat.lt_irrefl _)
    · intro s e e' he he' hlt
      rcases hcases he' with he' | rfl
      · rcases hcases he with he | rfl
        · rcases hf.goesOn_flatMap ih hapart he he' hlt with hb | ⟨-, -, hb⟩
          · exact hb
          · exact hb.mono (List.subset_append_left _ _)
        · exact (hbegins he').mono (List.subset_append_right _ _)
      · rcases hcases he with he | rfl
        · exact absurd (hmore he) (Nat.lt_asymm hlt)
        · exact absurd hlt (Nat.lt_irrefl _)
    · intro s
      rw [heq]
      refine List.pairwise_append.2
        ⟨hf.decreasing_flatMap ih hapart s, List.pairwise_singleton _ s, ?_⟩
      intro e he e' he'
      rw [List.mem_singleton.1 he']
      exact hmore he

end Greedy

variable {p q : Pattern}

theorem lt_of_mem_ends (hp : p.isNonempty) (he : e ∈ p.ends s) : s.1 < e.1 := by
  obtain ⟨u, -, hn, hread⟩ := exists_reads_of_mem_ends he
  have hlength := List.length_pos_iff.2 (hread.ne_nil hp)
  omega

theorem greedy_seq (hp : Greedy p.firsts p.nexts p.ends) (hq : Greedy q.firsts q.nexts q.ends)
    (hapart : CharClass.areApart p.nexts q.firsts) :
    Greedy (seq p q).firsts (seq p q).nexts (seq p q).ends where
  passes := hp.passes_flatMap hq
  begins := by
    intro s e he hlt
    rcases hp.begins_flatMap hq he hlt with hb | ⟨hs, hb⟩
    · exact hb.mono (List.subset_append_left _ _)
    · have hempty : ¬ p.isNonempty := fun hne => Nat.lt_irrefl _ (lt_of_mem_ends hne hs)
      rw [firsts, if_neg hempty]
      exact hb.mono (List.subset_append_right _ _)
  goesOn := by
    intro s e e' he he' hlt
    rcases hp.goesOn_flatMap hq hapart he he' hlt with hb | ⟨-, hs, hb⟩
    · exact hb.mono (List.subset_append_left _ _)
    · have hempty : ¬ q.isNonempty := fun hne => Nat.lt_irrefl _ (lt_of_mem_ends hne hs)
      rw [nexts, if_neg hempty]
      exact hb.mono (List.subset_append_right _ _)
  decreasing := hp.decreasing_flatMap hq hapart

theorem greedy_alt (hp : Greedy p.firsts p.nexts p.ends) (hq : Greedy q.firsts q.nexts q.ends)
    (hne : p.isNonempty) (hapart : CharClass.areApart p.firsts q.firsts) :
    Greedy (alt p q).firsts (alt p q).nexts (alt p q).ends := by
  have hcases {s e : Cursor} (he : e ∈ (alt p q).ends s) : e ∈ p.ends s ∨ e ∈ q.ends s :=
    List.mem_append.1 he
  have hbegins {s e : Cursor} (he : e ∈ p.ends s) : s.BeginsIn p.firsts :=
    hp.begins he (lt_of_mem_ends hne he)
  -- Where the left pattern matches, the right one takes no character.
  have hstays {s e e' : Cursor} (he : e ∈ p.ends s) (he' : e' ∈ q.ends s) : e' = s := by
    refine hq.eq_of_fst_eq_start he' (Nat.le_antisymm (Nat.le_of_not_lt fun hlt => ?_) (hq.le he'))
    exact not_beginsIn_of_areApart hapart (hbegins he) (hq.begins he' hlt)
  refine ⟨?_, ?_, ?_, ?_⟩
  · intro s e he
    exact (hcases he).elim hp.passes hq.passes
  · intro s e he hlt
    rcases hcases he with he | he
    · exact (hp.begins he hlt).mono (List.subset_append_left _ _)
    · exact (hq.begins he hlt).mono (List.subset_append_right _ _)
  · intro s e e' he he' hlt
    rcases hcases he with he | he
    · rcases hcases he' with he' | he'
      · exact ((hp.goesOn he he' hlt).mono (List.subset_append_left _ _)).mono
          (List.subset_append_left _ _)
      · rw [hstays he he'] at hlt
        exact absurd (hp.le he) (Nat.not_le_of_lt hlt)
    · rcases hcases he' with he' | he'
      · rw [hstays he' he]
        exact (hbegins he').mono (List.subset_append_right _ _)
      · exact ((hq.goesOn he he' hlt).mono (List.subset_append_right _ _)).mono
          (List.subset_append_left _ _)
  · intro s
    refine List.pairwise_append.2 ⟨hp.decreasing s, hq.decreasing s, ?_⟩
    intro e he e' he'
    rw [hstays he he']
    exact lt_of_mem_ends hne he

theorem greedy_ends (h : p.isDeterministic) : Greedy p.firsts p.nexts p.ends := by
  induction p with
  | empty => exact .of_stays fun s => .inl rfl
  | one k =>
    have hmem {s e : Cursor} (he : e ∈ (one k).ends s) :
        ∃ c, s.2 = c :: e.2 ∧ e.1 = s.1 + 1 ∧ k.contains c := by
      obtain ⟨u, hu, hn, hread⟩ := exists_reads_of_mem_ends he
      cases hread with
      | one hc => exact ⟨_, hu, hn, hc⟩
    refine ⟨?_, ?_, ?_, ?_⟩
    · intro s e he
      obtain ⟨c, hc, hn, -⟩ := hmem he
      exact ⟨[c], hc, hn⟩
    · intro s e he _
      obtain ⟨c, hc, -, hk⟩ := hmem he
      exact ⟨k, List.mem_singleton.2 rfl, c, e.2, hc, hk⟩
    · intro s e e' he he' hlt
      obtain ⟨_, -, hn, -⟩ := hmem he
      obtain ⟨_, -, hn', -⟩ := hmem he'
      omega
    · rintro ⟨n, t⟩
      cases t with
      | nil => exact .nil
      | cons c t =>
        rw [ends]
        split
        · exact List.pairwise_singleton _ _
        · exact .nil
  | atStart =>
    refine .of_stays fun s => ?_
    rw [ends]
    split
    · exact .inl rfl
    · exact .inr rfl
  | atEnd =>
    refine .of_stays fun s => ?_
    rw [ends]
    split
    · exact .inl rfl
    · exact .inr rfl
  | seq p q ihp ihq =>
    simp only [isDeterministic, Bool.and_eq_true] at h
    exact greedy_seq (ihp h.1.1) (ihq h.1.2) h.2
  | alt p q ihp ihq =>
    simp only [isDeterministic, Bool.and_eq_true] at h
    exact greedy_alt (ihp h.1.1.1) (ihq h.1.1.2) h.1.2 h.2
  | star p ih =>
    simp only [isDeterministic, Bool.and_eq_true] at h
    have hall := (ih h.1.1).repeatEnds (fun he => lt_of_mem_ends h.1.2 he) h.2
    exact ⟨(hall _).passes, (hall _).begins, (hall _).goesOn, fun s => (hall _).decreasing s⟩

theorem mem_repeatEnds_of_mem {m : Cursor} (hm : m ∈ p.ends s) (he : e ∈ (star p).ends m) :
    e ∈ (star p).ends s := by
  obtain ⟨u, hu, hn, -⟩ := exists_reads_of_mem_ends hm
  by_cases hnil : u = []
  · -- A round that takes no character leads nowhere.
    rw [hnil, List.nil_append] at hu
    rw [hnil] at hn
    rwa [← Prod.ext hn hu.symm]
  · have hpos := List.length_pos_iff.2 hnil
    have hlength : m.2.length < s.2.length := by
      rw [hu, List.length_append]
      omega
    rw [ends, repeatEnds]
    refine List.mem_append_left _ (List.mem_flatMap.2 ⟨m, hm, ?_⟩)
    rw [if_pos (by omega), repeatEnds_of_lt hlength]
    exact he

theorem mem_ends_of_reads {u : Text} (hread : p.Reads u) (hp : p.isAnchorFree) (n : Nat)
    (t : Text) : (n + u.length, t) ∈ p.ends (n, u ++ t) := by
  induction hread generalizing n t with
  | empty => exact List.mem_singleton.2 rfl
  | one hc =>
    rw [List.singleton_append, ends, if_pos hc]
    exact List.mem_singleton.2 rfl
  | atStart | atEnd => cases hp
  | @seq p q u v _ _ ihp ihq =>
    obtain ⟨hp, hq⟩ := Bool.and_eq_true_iff.1 hp
    rw [List.length_append, List.append_assoc, ← Nat.add_assoc]
    exact List.mem_flatMap.2 ⟨_, ihp hp n (v ++ t), ihq hq _ t⟩
  | altLeft _ ih => exact List.mem_append_left _ (ih (Bool.and_eq_true_iff.1 hp).1 n t)
  | altRight _ ih => exact List.mem_append_right _ (ih (Bool.and_eq_true_iff.1 hp).2 n t)
  | starNil => exact List.mem_append_right _ (List.mem_singleton.2 rfl)
  | @starAppend p u v _ _ ihp ihs =>
    rw [List.length_append, List.append_assoc, ← Nat.add_assoc]
    exact mem_repeatEnds_of_mem (ihp hp n (v ++ t)) (ihs hp _ t)

theorem mem_ends_iff (hp : p.isAnchorFree) :
    e ∈ p.ends s ↔ ∃ u, s.2 = u ++ e.2 ∧ e.1 = s.1 + u.length ∧ p.Reads u := by
  refine ⟨exists_reads_of_mem_ends, ?_⟩
  rintro ⟨u, hu, hn, hread⟩
  obtain ⟨n, t⟩ := s
  obtain ⟨m, r⟩ := e
  obtain rfl : t = u ++ r := hu
  obtain rfl : m = n + u.length := hn
  exact mem_ends_of_reads hread hp n r

theorem reads_anchored_iff {u : Text} : (anchored p).Reads u ↔ p.Reads u := by
  constructor
  · intro h
    cases h with
    | seq hstart hp =>
      cases hstart
      exact hp
  · exact fun hp => .seq .atStart hp

theorem exists_mem_ends_of_reads {t u : Text} (hfree : p.isAnchorFree) (hu : u <+: t)
    (hread : p.Reads u) : ∃ r, (u.length, r) ∈ p.ends (0, t) := by
  obtain ⟨r, rfl⟩ := hu
  exact ⟨r, (mem_ends_iff hfree).2 ⟨u, rfl, (Nat.zero_add _).symm, hread⟩⟩

theorem exists_reads_of_mem_ends_zero {t : Text} (he : e ∈ p.ends (0, t)) :
    ∃ u, u <+: t ∧ e.1 = u.length ∧ p.Reads u := by
  obtain ⟨u, hu, hn, hread⟩ := exists_reads_of_mem_ends he
  exact ⟨u, ⟨e.2, hu.symm⟩, by rw [hn, Nat.zero_add], hread⟩

theorem reach?_anchored (hne : p.isNonempty) (t : Text) :
    (anchored p).matcher.reach? t = (p.ends (0, t)).head?.map Prod.fst := by
  simp only [Matcher.reach?, matcher, find?_anchored]
  cases hhead : (p.ends (0, t)).head? with
  | none => rfl
  | some e =>
    have hpos : 0 < e.1 := lt_of_mem_ends hne (List.mem_of_head? hhead)
    simp only [Option.map_some, if_pos hpos]

theorem reach?_anchored_eq_none_iff (hfree : p.isAnchorFree) (hne : p.isNonempty) {t : Text} :
    (anchored p).matcher.reach? t = none ↔ ∀ u, u <+: t → ¬ p.Reads u := by
  rw [reach?_anchored hne, Option.map_eq_none_iff, List.head?_eq_none_iff]
  constructor
  · intro hnil u hu hread
    obtain ⟨r, hr⟩ := exists_mem_ends_of_reads hfree hu hread
    rw [hnil] at hr
    cases hr
  · intro hnone
    refine List.eq_nil_iff_forall_not_mem.2 fun e he => ?_
    obtain ⟨u, hu, -, hread⟩ := exists_reads_of_mem_ends_zero he
    exact hnone u hu hread

/-- A first part of a text that has the property, and there is no longer one. -/
structure IsLongest (P : Text → Prop) (u t : Text) : Prop where
  isPrefix : u <+: t
  holds : P u
  longest : ∀ {v}, v <+: t → P v → v.length ≤ u.length

/-- A match whose ends go down takes the longest text that the pattern reads. -/
theorem reach?_anchored_iff_longest (hfree : p.isAnchorFree) (hne : p.isNonempty) {t : Text}
    (hdecreasing : (p.ends (0, t)).Pairwise fun e e' => e'.1 < e.1) {n : Nat} :
    (anchored p).matcher.reach? t = some n ↔ ∃ u, IsLongest p.Reads u t ∧ n = u.length := by
  have hhead {e : Cursor} (h : (p.ends (0, t)).head? = some e) :
      ∃ u, IsLongest p.Reads u t ∧ e.1 = u.length := by
    obtain ⟨u, hu, hn, hread⟩ := exists_reads_of_mem_ends_zero (List.mem_of_head? h)
    refine ⟨u, ⟨hu, hread, fun {v} hv hvread => ?_⟩, hn⟩
    obtain ⟨es, hes⟩ := List.head?_eq_some_iff.1 h
    obtain ⟨r, hr⟩ := exists_mem_ends_of_reads hfree hv hvread
    rw [hes] at hr hdecreasing
    rcases List.mem_cons.1 hr with rfl | hr
    · exact Nat.le_of_eq hn
    · have hlt := List.rel_of_pairwise_cons hdecreasing hr
      dsimp only at hlt
      omega
  constructor
  · intro h
    rw [reach?_anchored hne, Option.map_eq_some_iff] at h
    obtain ⟨e, he, rfl⟩ := h
    exact hhead he
  · rintro ⟨v, hv, rfl⟩
    obtain ⟨r, hr⟩ := exists_mem_ends_of_reads hfree hv.isPrefix hv.holds
    cases he : (p.ends (0, t)).head? with
    | none =>
      rw [List.head?_eq_none_iff.1 he] at hr
      cases hr
    | some e =>
      obtain ⟨u, hu, hn⟩ := hhead he
      have hle := hu.longest hv.isPrefix hv.holds
      have hge := hv.longest hu.isPrefix hu.holds
      rw [reach?_anchored hne, he, Option.map_some, hn, Nat.le_antisymm hge hle]

end Pattern

end Highlight
