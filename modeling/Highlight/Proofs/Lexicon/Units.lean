import Highlight.Proofs.Lexicon.Carry
import Highlight.Proofs.Lexicon.Offsets

/-!
# Closing marks between units

A search for a closing mark passes over a text by units: an escape character goes with the
character behind it, and every other character goes by itself. The mark is found behind the
fewest units in front of which it stands (`findClosing_eq_some_iff`), if the limit allows
that many. Limits therefore only decide whether a mark is found, never which one
(`closingAt?_iff_firstMarkAt`).
-/

namespace Highlight

def units (escape : Option Char) : Text → List Text
  | [] => []
  | [c] => [[c]]
  | c :: d :: t =>
    if escape = some c then [c, d] :: units escape t else [c] :: units escape (d :: t)

/-- Among pieces of a text a mark stands behind `k` of them, and behind no fewer. -/
structure FirstMark (mark : Text) (pieces : List Text) (k : Nat) : Prop where
  inside : k < pieces.length
  here : mark <+: (pieces.drop k).flatten
  first : ∀ j < k, ¬ mark <+: (pieces.drop j).flatten

/-- How many characters the first `k` pieces and the mark behind them have. -/
def FoundAfter (mark : Text) (limit : Option Nat) (pieces : List Text) (n : Nat) : Prop :=
  ∃ k, FirstMark mark pieces k ∧ (∀ m ∈ limit, k ≤ m) ∧
    n = (pieces.take k).flatten.length + mark.length

def Text.HasMarkAt (t mark : Text) (pos : Nat) : Prop :=
  ∃ before after, t = before ++ (mark ++ after) ∧ pos = before.byteSize

/-- The offset that a number of units reaches from a start, behind which the rest is. -/
def unitOffset (escape : Option Char) (rest : Text) (start k : Nat) : Nat :=
  start + Text.byteSize ((units escape rest).take k).flatten

/-- Of the places in a text the one with this number is the first at which a mark stands. -/
structure FirstMarkAt (mark t : Text) (place : Nat → Nat) (k : Nat) : Prop where
  inside : place k < t.byteSize
  here : t.HasMarkAt mark (place k)
  first : ∀ j < k, ¬ t.HasMarkAt mark (place j)

namespace Delimited

def closeAt? (d : Delimited) (t : Text) (start : Nat) : Option Nat := do
  let (_, rest) ← t.splitAt? start
  return start + Text.byteSize (rest.take (← d.findClose rest))

def withLimit (d : Delimited) (limit : Option Nat) : Delimited := { d with limit := limit }

end Delimited

section Units

variable {mark : Text} {escape : Option Char} {limit : Option Nat} {t u : Text}
  {pieces : List Text} {n k : Nat}

theorem isSome_after?_iff : (t.after? mark).isSome ↔ mark <+: t := by
  rw [Option.isSome_iff_exists]
  constructor
  · rintro ⟨r, hr⟩
    exact ⟨r, (Text.after?_eq_some_iff.1 hr).symm⟩
  · rintro ⟨r, hr⟩
    exact ⟨r, Text.after?_eq_some_iff.2 hr.symm⟩

theorem flatten_units (escape : Option Char) (t : Text) : (units escape t).flatten = t := by
  fun_induction units escape t with
  | case1 => rfl
  | case2 c => rfl
  | case3 c d t _ ih => rw [List.flatten_cons, ih]; rfl
  | case4 c d t _ ih => rw [List.flatten_cons, ih]; rfl

theorem ne_nil_of_mem_units (h : u ∈ units escape t) : u ≠ [] := by
  fun_induction units escape t with
  | case1 => cases h
  | case2 c =>
    rw [List.mem_singleton.1 h]
    exact List.cons_ne_nil c []
  | case3 c d t _ ih =>
    rcases List.mem_cons.1 h with rfl | h
    · exact List.cons_ne_nil c [d]
    · exact ih h
  | case4 c d t _ ih =>
    rcases List.mem_cons.1 h with rfl | h
    · exact List.cons_ne_nil c []
    · exact ih h

theorem exists_units_cons (escape : Option Char) (c : Char) (t : Text) :
    ∃ u pieces, units escape (c :: t) = u :: pieces := by
  refine List.exists_cons_of_ne_nil ?_
  intro hnil
  have hflatten := flatten_units escape (c :: t)
  rw [hnil] at hflatten
  cases hflatten

theorem not_firstMark_nil : ¬ FirstMark mark [] k := fun h => Nat.not_lt_zero k h.inside

theorem firstMark_cons_iff :
    FirstMark mark (u :: pieces) k ↔
      (mark <+: (u :: pieces).flatten ∧ k = 0) ∨
        (¬ mark <+: (u :: pieces).flatten ∧ ∃ j, k = j + 1 ∧ FirstMark mark pieces j) := by
  constructor
  · intro h
    cases k with
    | zero => exact .inl ⟨h.here, rfl⟩
    | succ j =>
      refine .inr ⟨h.first 0 (Nat.succ_pos j), j, rfl, Nat.lt_of_succ_lt_succ h.inside, h.here, ?_⟩
      intro i hi
      exact h.first (i + 1) (Nat.succ_lt_succ hi)
  · rintro (⟨h, rfl⟩ | ⟨h, j, rfl, hj⟩)
    · exact ⟨Nat.succ_pos _, h, fun j hj => absurd hj (Nat.not_lt_zero j)⟩
    · refine ⟨Nat.succ_lt_succ hj.inside, hj.here, ?_⟩
      intro i hi
      cases i with
      | zero => exact h
      | succ i => exact hj.first i (Nat.lt_of_succ_lt_succ hi)

theorem foundAfter_of_mark (h : mark <+: (u :: pieces).flatten) :
    FoundAfter mark limit (u :: pieces) n ↔ n = mark.length := by
  simp only [FoundAfter, firstMark_cons_iff, h, true_and, not_true, false_and, or_false]
  simp

theorem not_foundAfter_zero (h : ¬ mark <+: (u :: pieces).flatten) :
    ¬ FoundAfter mark (some 0) (u :: pieces) n := by
  rintro ⟨k, hk, hlimit, -⟩
  obtain ⟨-, j, rfl, -⟩ := (firstMark_cons_iff.1 hk).resolve_left fun hm => h hm.1
  exact Nat.not_succ_le_zero j (hlimit 0 rfl)

theorem foundAfter_cons (h : ¬ mark <+: (u :: pieces).flatten) (hlimit : limit ≠ some 0) :
    FoundAfter mark limit (u :: pieces) n ↔
      ∃ m, FoundAfter mark (limit.map (· - 1)) pieces m ∧ m + u.length = n := by
  have hle (j : Nat) : (∀ m ∈ limit, j + 1 ≤ m) ↔ ∀ m ∈ limit.map (· - 1), j ≤ m := by
    cases limit with
    | none => simp
    | some m =>
      have hm : m ≠ 0 := fun h0 => hlimit (congrArg some h0)
      simp only [Option.mem_def, Option.some.injEq, forall_eq', Option.map_some]
      omega
  have hsize (j : Nat) : ((u :: pieces).take (j + 1)).flatten.length + mark.length =
      (pieces.take j).flatten.length + mark.length + u.length := by
    rw [List.take_succ_cons, List.flatten_cons, List.length_append]
    omega
  simp only [FoundAfter, firstMark_cons_iff, h, false_and, false_or, not_false_eq_true, true_and]
  constructor
  · rintro ⟨_, ⟨j, rfl, hj⟩, hk, rfl⟩
    exact ⟨_, ⟨j, hj, (hle j).1 hk, rfl⟩, (hsize j).symm⟩
  · rintro ⟨_, ⟨j, hj, hk, rfl⟩, rfl⟩
    exact ⟨j + 1, ⟨j, rfl, hj⟩, (hle j).2 hk, (hsize j).symm⟩

theorem findClosing_eq_some_iff :
    findClosing mark escape limit t = some n ↔ FoundAfter mark limit (units escape t) n := by
  fun_induction findClosing mark escape limit t generalizing n with
  | case1 => simp [units, FoundAfter, not_firstMark_nil]
  | case2 limit c h =>
    rw [isSome_after?_iff] at h
    rw [units, foundAfter_of_mark h, Option.some.injEq, eq_comm]
  | case3 limit c h =>
    rw [isSome_after?_iff] at h
    have hnone : ¬ FoundAfter mark limit [[c]] n := by
      rintro ⟨k, hk, -⟩
      rcases firstMark_cons_iff.1 hk with ⟨hm, -⟩ | ⟨-, j, -, hj⟩
      · exact h hm
      · exact not_firstMark_nil hj
    simp [units, hnone]
  | case4 limit c d t h =>
    obtain ⟨u, pieces, hu⟩ := exists_units_cons escape c (d :: t)
    rw [isSome_after?_iff, ← flatten_units escape (c :: d :: t), hu] at h
    rw [hu, foundAfter_of_mark h, Option.some.injEq, eq_comm]
  | case5 c d t h =>
    obtain ⟨u, pieces, hu⟩ := exists_units_cons escape c (d :: t)
    rw [isSome_after?_iff, ← flatten_units escape (c :: d :: t), hu] at h
    simp [hu, not_foundAfter_zero h]
  | case6 limit c d t h hlimit he ih =>
    rw [isSome_after?_iff, ← flatten_units escape (c :: d :: t), units, if_pos he] at h
    rw [units, if_pos he, foundAfter_cons h hlimit, Option.map_eq_some_iff]
    simp only [ih]
    rfl
  | case7 limit c d t h hlimit he ih =>
    rw [isSome_after?_iff, ← flatten_units escape (c :: d :: t), units, if_neg he] at h
    rw [units, if_neg he, foundAfter_cons h hlimit, Option.map_eq_some_iff]
    simp only [ih]
    rfl

end Units

section Places

variable {mark : Text} {escape : Option Char} {limit : Option Nat} {done rest l r : Text}
  {k e : Nat}

theorem Text.hasMarkAt_append : (l ++ r).HasMarkAt mark l.byteSize ↔ mark <+: r := by
  constructor
  · rintro ⟨before, after, ht, hpos⟩
    have hsplit := (splitAt?_byteSize l r).symm.trans (splitAt?_eq_some_iff.2 ⟨ht, hpos⟩)
    obtain ⟨-, rfl⟩ := Prod.mk.inj (Option.some.inj hsplit)
    exact List.prefix_append mark after
  · rintro ⟨after, rfl⟩
    exact ⟨l, after, rfl, rfl⟩

theorem append_units (escape : Option Char) (done rest : Text) (k : Nat) :
    ∃ l, done ++ rest = l ++ ((units escape rest).drop k).flatten ∧
      unitOffset escape rest done.byteSize k = l.byteSize := by
  refine ⟨done ++ ((units escape rest).take k).flatten, ?_, (Text.byteSize_append _ _).symm⟩
  rw [List.append_assoc, ← List.flatten_append, List.take_append_drop, flatten_units]

theorem hasMarkAt_unitOffset :
    Text.HasMarkAt (done ++ rest) mark (unitOffset escape rest done.byteSize k) ↔
      mark <+: ((units escape rest).drop k).flatten := by
  obtain ⟨l, ht, hpos⟩ := append_units escape done rest k
  rw [ht, hpos, Text.hasMarkAt_append]

theorem unitOffset_lt_iff :
    unitOffset escape rest done.byteSize k < Text.byteSize (done ++ rest) ↔
      k < (units escape rest).length := by
  obtain ⟨l, ht, hpos⟩ := append_units escape done rest k
  rw [ht, hpos, Text.byteSize_append]
  refine ⟨fun hlt => Nat.lt_of_not_le fun hk => ?_, fun hk => ?_⟩
  · rw [List.drop_eq_nil_of_le hk] at hlt
    exact Nat.lt_irrefl _ hlt
  · rw [List.drop_eq_getElem_cons hk, List.flatten_cons]
    have hne := ne_nil_of_mem_units (List.getElem_mem hk)
    exact Nat.lt_add_of_pos_right (Text.byteSize_pos (List.append_ne_nil_of_left_ne_nil hne _))

theorem firstMarkAt_unitOffset :
    FirstMarkAt mark (done ++ rest) (unitOffset escape rest done.byteSize) k ↔
      FirstMark mark (units escape rest) k := by
  constructor
  · intro h
    refine ⟨unitOffset_lt_iff.1 h.inside, hasMarkAt_unitOffset.1 h.here, ?_⟩
    intro j hj hm
    exact h.first j hj (hasMarkAt_unitOffset.2 hm)
  · intro h
    refine ⟨unitOffset_lt_iff.2 h.inside, hasMarkAt_unitOffset.2 h.here, ?_⟩
    intro j hj hm
    exact h.first j hj (hasMarkAt_unitOffset.1 hm)

theorem byteSize_take_of_firstMark (h : FirstMark mark (units escape rest) k) (start : Nat) :
    start + Text.byteSize (rest.take (((units escape rest).take k).flatten.length + mark.length)) =
      unitOffset escape rest start k + mark.byteSize := by
  obtain ⟨after, hafter⟩ := h.here
  have htake : (((units escape rest).take k).flatten ++ (mark ++ after)).take
      (((units escape rest).take k).flatten.length + mark.length) =
        ((units escape rest).take k).flatten ++ (mark ++ after).take mark.length :=
    List.take_length_add_append mark.length
  have hrest : ((units escape rest).take k).flatten ++ (mark ++ after) = rest := by
    rw [hafter, ← List.flatten_append, List.take_append_drop, flatten_units]
  rw [hrest, List.take_left] at htake
  rw [htake, Text.byteSize_append, unitOffset, Nat.add_assoc]

theorem offset_findClosing_eq_some_iff :
    ((findClosing mark escape limit rest).map fun n =>
        done.byteSize + Text.byteSize (rest.take n)) = some e ↔
      ∃ k, FirstMarkAt mark (done ++ rest) (unitOffset escape rest done.byteSize) k ∧
        (∀ m ∈ limit, k ≤ m) ∧ e = unitOffset escape rest done.byteSize k + mark.byteSize := by
  rw [Option.map_eq_some_iff]
  simp only [findClosing_eq_some_iff, firstMarkAt_unitOffset]
  constructor
  · rintro ⟨_, ⟨k, hk, hlimit, rfl⟩, rfl⟩
    exact ⟨k, hk, hlimit, byteSize_take_of_firstMark hk _⟩
  · rintro ⟨k, hk, hlimit, rfl⟩
    exact ⟨_, ⟨k, hk, hlimit, rfl⟩, byteSize_take_of_firstMark hk _⟩

theorem closingAt?_start (mark : Text) (escape : Option Char) (limit : Option Nat)
    (done rest : Text) :
    closingAt? (done ++ rest) mark escape limit (Text.byteSize (done ++ rest) + 1)
        done.byteSize 0 =
      some ((findClosing mark escape limit rest).map fun n =>
        done.byteSize + Text.byteSize (rest.take n)) := by
  refine closingAt?_eq mark escape limit limit done rest _ 0 Option.map_id'.symm ?_
  rw [Text.byteSize_append]
  omega

theorem Delimited.closeAt?_append (d : Delimited) (done rest : Text) :
    d.closeAt? (done ++ rest) done.byteSize =
      (findClosing d.closing d.escape d.limit rest).map fun n =>
        done.byteSize + Text.byteSize (rest.take n) := by
  cases h : d.findClose rest <;> simp_all [closeAt?, Text.splitAt?_byteSize, findClose]

/-- A search in place goes to the first mark between units, if there are no more of them in
front of it than the limit allows. So a piece with a limit ends where it would without one,
and no higher limit moves its end. -/
theorem closingAt?_iff_firstMarkAt {t done rest : Text} {start : Nat}
    (hstart : t.splitAt? start = some (done, rest)) :
    (∀ mark escape limit, ∃ end?,
      closingAt? t mark escape limit (t.byteSize + 1) start 0 = some end? ∧
      ∀ e, end? = some e ↔ ∃ k, FirstMarkAt mark t (unitOffset escape rest start) k ∧
        (∀ m ∈ limit, k ≤ m) ∧ e = unitOffset escape rest start k + mark.byteSize) ∧
    (∀ d : Delimited, closingAt? t d.closing d.escape d.limit (t.byteSize + 1) start 0 =
      some (d.closeAt? t start)) ∧
    (∀ r : Region, closingAt? t r.closing r.escape none (t.byteSize + 1) start 0 =
      some (r.endAt? t start)) ∧
    ∀ (d : Delimited) (m e : Nat), (d.withLimit (some m)).closeAt? t start = some e →
      (d.withLimit none).closeAt? t start = some e ∧
        ∀ n, m ≤ n → (d.withLimit (some n)).closeAt? t start = some e := by
  obtain ⟨rfl, rfl⟩ := Text.splitAt?_eq_some_iff.1 hstart
  refine ⟨?_, ?_, ?_, ?_⟩
  · intro mark escape limit
    exact ⟨_, closingAt?_start mark escape limit done rest,
      fun e => offset_findClosing_eq_some_iff⟩
  · intro d
    rw [closingAt?_start, d.closeAt?_append]
  · intro r
    rw [closingAt?_start, r.endAt?_append]
    rfl
  · intro d m e h
    rw [Delimited.closeAt?_append] at h
    obtain ⟨k, hk, hm, he⟩ := offset_findClosing_eq_some_iff.1 h
    have hkm : k ≤ m := hm m rfl
    constructor
    · rw [Delimited.closeAt?_append]
      exact offset_findClosing_eq_some_iff.2 ⟨k, hk, by simp [Delimited.withLimit], he⟩
    · intro n hmn
      rw [Delimited.closeAt?_append]
      refine offset_findClosing_eq_some_iff.2 ⟨k, hk, ?_, he⟩
      intro l hl
      cases hl
      exact Nat.le_trans hkm hmn

theorem closingAt?_iff_firstMarkAt_escaped :
    let t : Text := ['<', '\\', 'é', 'λ', '\\', '>', '>']
    let d : Delimited := ⟨['<'], ['\\', '>'], some '\\', some 2, .string, by decide⟩
    t.splitAt? 1 = some (['<'], ['\\', 'é', 'λ', '\\', '>', '>']) ∧
      d.closeAt? t 1 = some 8 ∧ (d.withLimit (some 1)).closeAt? t 1 = none ∧
      (d.withLimit none).closeAt? t 1 = some 8 ∧
      ∀ n, 2 ≤ n → (d.withLimit (some n)).closeAt? t 1 = some 8 := by
  intro t d
  have hstart : t.splitAt? 1 = some (['<'], ['\\', 'é', 'λ', '\\', '>', '>']) := by decide
  have hfound : d.closeAt? t 1 = some 8 := by decide
  exact ⟨hstart, hfound, by decide, (closingAt?_iff_firstMarkAt hstart).2.2.2 d 2 8 hfound⟩

end Places

end Highlight
