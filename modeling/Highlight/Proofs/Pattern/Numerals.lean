import Highlight.Pattern.Reader
import Highlight.Proofs.Pattern.Greedy

/-!
# Numbers

The numbers of the standard pattern are literals in four bases (`IsNumeral`, `reads_numeral_iff`).
In each base the next character decides how a literal goes on, and a mark of a base leaves the
decimal literals only their zero, so the ends of a match are listed from the longest to the
shortest. Preferring the earlier bases therefore never hides a longer number
(`lengthAt?_standardNumber_longest`).
-/

namespace Highlight

/-- Digits of a base, at least one, with underscores wherever a digit may stand. -/
def IsDigits (k : CharClass) (u : Text) : Prop := u ≠ [] ∧ ∀ c ∈ u, k.contains c

def IsDecimal (u : Text) : Prop :=
  ∃ d ds, u = d :: ds ∧ Pattern.Literal.digit.contains d ∧
    ∀ c ∈ ds, Pattern.Literal.digitOrSeparator.contains c

def IsFraction (digits : Text → Prop) (u : Text) : Prop := u = [] ∨ ∃ ds, u = '.' :: ds ∧ digits ds

inductive IsExponent (marks : List Char) : Text → Prop
  | none : IsExponent marks []
  | unsigned {c : Char} {ds : Text} (hc : c ∈ marks)
      (hd : IsDigits Pattern.Literal.digitOrSeparator ds) : IsExponent marks (c :: ds)
  | signed {c s : Char} {ds : Text} (hc : c ∈ marks) (hs : s ∈ ['+', '-'])
      (hd : IsDigits Pattern.Literal.digitOrSeparator ds) : IsExponent marks (c :: s :: ds)

inductive IsNumeral : Text → Prop
  | hexadecimal {digits fraction exponent : Text} (hd : IsDigits Pattern.Literal.hexDigit digits)
      (hf : IsFraction (IsDigits Pattern.Literal.hexDigit) fraction)
      (he : IsExponent ['p', 'P'] exponent) :
      IsNumeral ('0' :: 'x' :: (digits ++ (fraction ++ exponent)))
  | octal {digits : Text} (hd : IsDigits Pattern.Literal.octalDigit digits) :
      IsNumeral ('0' :: 'o' :: digits)
  | binary {digits : Text} (hd : IsDigits Pattern.Literal.binaryDigit digits) :
      IsNumeral ('0' :: 'b' :: digits)
  | decimal {digits fraction exponent : Text} (hd : IsDecimal digits)
      (hf : IsFraction IsDecimal fraction) (he : IsExponent ['e', 'E'] exponent) :
      IsNumeral (digits ++ (fraction ++ exponent))

namespace CharClass

theorem le_and_le_iff {c d : Char} : c ≤ d ∧ d ≤ c ↔ d = c :=
  ⟨fun h => Char.le_antisymm h.2 h.1, fun h => h ▸ ⟨Char.le_refl d, Char.le_refl d⟩⟩

theorem contains_single_iff {c d : Char} : (single c).contains d ↔ d = c := by
  rw [single, contains_iff rfl]
  simp only [List.mem_singleton, exists_eq_left, le_and_le_iff]

theorem contains_pair_iff {a b c : Char} :
    (⟨[(a, a), (b, b)], false⟩ : CharClass).contains c ↔ c ∈ [a, b] := by
  rw [contains_iff rfl]
  simp only [List.mem_cons, List.not_mem_nil, or_false, exists_eq_or_imp, exists_eq_left,
    le_and_le_iff]

end CharClass

namespace Pattern

def standardNumberText : Text :=
  ("^(?:0x[0-9a-fA-F_]+(?:\\.[0-9a-fA-F_]+)?(?:[pP][+-]?[0-9_]+)?" ++
    "|0o[0-7_]+" ++ "|0b[01_]+" ++
    "|[0-9][0-9_]*(?:\\.[0-9][0-9_]*)?(?:[eE][+-]?[0-9_]+)?)").toList

theorem ofText?_standardNumberText : ofText? standardNumberText = some standardNumber := by
  decide +kernel

def numeral : Pattern :=
  altAll [Literal.hexadecimal, Literal.octal, Literal.binary, Literal.decimal]

section Reads

variable {p q : Pattern} {k : CharClass} {u : Text}

theorem reads_empty_iff : empty.Reads u ↔ u = [] := by
  constructor
  · intro h
    cases h
    rfl
  · rintro rfl
    exact .empty

theorem reads_one_iff : (one k).Reads u ↔ ∃ c, u = [c] ∧ k.contains c := by
  constructor
  · intro h
    cases h with
    | one hc => exact ⟨_, rfl, hc⟩
  · rintro ⟨c, rfl, hc⟩
    exact .one hc

theorem reads_seq_iff : (seq p q).Reads u ↔ ∃ v w, u = v ++ w ∧ p.Reads v ∧ q.Reads w := by
  constructor
  · intro h
    cases h with
    | seq hp hq => exact ⟨_, _, rfl, hp, hq⟩
  · rintro ⟨v, w, rfl, hp, hq⟩
    exact .seq hp hq

theorem reads_alt_iff : (alt p q).Reads u ↔ p.Reads u ∨ q.Reads u := by
  constructor
  · intro h
    cases h with
    | altLeft hp => exact .inl hp
    | altRight hq => exact .inr hq
  · rintro (hp | hq)
    · exact .altLeft hp
    · exact .altRight hq

theorem reads_optional_iff : (optional p).Reads u ↔ u = [] ∨ p.Reads u := by
  rw [optional, reads_alt_iff, reads_empty_iff, or_comm]

theorem reads_star_one_iff : (star (one k)).Reads u ↔ ∀ c ∈ u, k.contains c := by
  constructor
  · intro h
    generalize hp : star (one k) = p at h
    induction h with
    | starNil => exact fun c hc => absurd hc List.not_mem_nil
    | starAppend hone _ _ ih =>
      cases hp
      obtain ⟨c, rfl, hc⟩ := reads_one_iff.1 hone
      exact List.forall_mem_cons.2 ⟨hc, ih rfl⟩
    | empty | one | atStart | atEnd | seq | altLeft | altRight => cases hp
  · intro h
    induction u with
    | nil => exact .starNil
    | cons c u ih =>
      obtain ⟨hc, hu⟩ := List.forall_mem_cons.1 h
      exact .starAppend (.one hc) (ih hu)

theorem reads_one_seq_iff :
    (seq (one k) q).Reads u ↔ ∃ c t, u = c :: t ∧ k.contains c ∧ q.Reads t := by
  rw [reads_seq_iff]
  constructor
  · rintro ⟨v, w, rfl, hv, hw⟩
    obtain ⟨c, rfl, hc⟩ := reads_one_iff.1 hv
    exact ⟨c, w, rfl, hc, hw⟩
  · rintro ⟨c, t, rfl, hc, ht⟩
    exact ⟨[c], t, rfl, reads_one_iff.2 ⟨c, rfl, hc⟩, ht⟩

theorem reads_char_seq_iff {c : Char} : (seq (char c) q).Reads u ↔ ∃ t, u = c :: t ∧ q.Reads t := by
  simp only [char, reads_one_seq_iff, CharClass.contains_single_iff]
  constructor
  · rintro ⟨_, t, rfl, rfl, ht⟩
    exact ⟨t, rfl, ht⟩
  · rintro ⟨t, rfl, ht⟩
    exact ⟨c, t, rfl, rfl, ht⟩

end Reads

section Literals

open Literal

variable {p q : Pattern} {k : CharClass} {u : Text}

theorem reads_plus_one_iff : (plus (one k)).Reads u ↔ IsDigits k u := by
  rw [plus, reads_one_seq_iff]
  constructor
  · rintro ⟨c, t, rfl, hc, ht⟩
    exact ⟨List.cons_ne_nil c t, List.forall_mem_cons.2 ⟨hc, reads_star_one_iff.1 ht⟩⟩
  · rintro ⟨hne, hall⟩
    obtain ⟨c, t, rfl⟩ := List.exists_cons_of_ne_nil hne
    obtain ⟨hc, ht⟩ := List.forall_mem_cons.1 hall
    exact ⟨c, t, rfl, hc, reads_star_one_iff.2 ht⟩

theorem reads_fraction_iff {digits : Text → Prop} (hq : ∀ {v}, q.Reads v ↔ digits v) :
    (optional (seq (char '.') q)).Reads u ↔ IsFraction digits u := by
  rw [reads_optional_iff, reads_char_seq_iff, IsFraction]
  simp only [hq]

theorem reads_exponent_iff {a b : Char} :
    (optional (exponent ⟨[(a, a), (b, b)], false⟩)).Reads u ↔ IsExponent [a, b] u := by
  rw [reads_optional_iff, exponent, seqAll, seqAll, seqAll, reads_one_seq_iff]
  constructor
  · rintro (rfl | ⟨c, t, rfl, hc, ht⟩)
    · exact .none
    · obtain ⟨s, ds, rfl, hs, hds⟩ := reads_seq_iff.1 ht
      rcases reads_optional_iff.1 hs with rfl | hsign
      · exact .unsigned (CharClass.contains_pair_iff.1 hc) (reads_plus_one_iff.1 hds)
      · obtain ⟨d, rfl, hd⟩ := reads_one_iff.1 hsign
        exact .signed (CharClass.contains_pair_iff.1 hc) (CharClass.contains_pair_iff.1 hd)
          (reads_plus_one_iff.1 hds)
  · rintro (_ | ⟨hc, hds⟩ | ⟨hc, hs, hds⟩)
    · exact .inl rfl
    · exact .inr ⟨_, _, rfl, CharClass.contains_pair_iff.2 hc, reads_seq_iff.2
        ⟨[], _, rfl, reads_optional_iff.2 (.inl rfl), reads_plus_one_iff.2 hds⟩⟩
    · exact .inr ⟨_, _, rfl, CharClass.contains_pair_iff.2 hc, reads_seq_iff.2
        ⟨[_], _, rfl, reads_optional_iff.2 (.inr (.one (CharClass.contains_pair_iff.2 hs))),
          reads_plus_one_iff.2 hds⟩⟩

theorem reads_decimalDigits_iff :
    (seq (one digit) (star (one digitOrSeparator))).Reads u ↔ IsDecimal u := by
  rw [reads_one_seq_iff, IsDecimal]
  simp only [reads_star_one_iff]

theorem reads_hexadecimal_iff : hexadecimal.Reads u ↔ ∃ digits fraction exponent,
    u = '0' :: 'x' :: (digits ++ (fraction ++ exponent)) ∧ IsDigits hexDigit digits ∧
      IsFraction (IsDigits hexDigit) fraction ∧ IsExponent ['p', 'P'] exponent := by
  simp only [hexadecimal, seqAll, reads_char_seq_iff]
  simp only [reads_seq_iff, reads_plus_one_iff, reads_fraction_iff reads_plus_one_iff,
    reads_exponent_iff]
  constructor
  · rintro ⟨t, rfl, t, rfl, digits, t, rfl, hd, fraction, exponent, rfl, hf, he⟩
    exact ⟨digits, fraction, exponent, rfl, hd, hf, he⟩
  · rintro ⟨digits, fraction, exponent, rfl, hd, hf, he⟩
    exact ⟨_, rfl, _, rfl, digits, _, rfl, hd, fraction, exponent, rfl, hf, he⟩

theorem reads_based_iff {mark : Char} :
    (seqAll [char '0', char mark, plus (one k)]).Reads u ↔
      ∃ digits, u = '0' :: mark :: digits ∧ IsDigits k digits := by
  simp only [seqAll, reads_char_seq_iff, reads_plus_one_iff]
  constructor
  · rintro ⟨t, rfl, digits, rfl, hd⟩
    exact ⟨digits, rfl, hd⟩
  · rintro ⟨digits, rfl, hd⟩
    exact ⟨_, rfl, digits, rfl, hd⟩

theorem reads_decimal_iff : decimal.Reads u ↔ ∃ digits fraction exponent,
    u = digits ++ (fraction ++ exponent) ∧ IsDecimal digits ∧
      IsFraction IsDecimal fraction ∧ IsExponent ['e', 'E'] exponent := by
  simp only [decimal, seqAll, reads_one_seq_iff]
  simp only [reads_seq_iff, reads_star_one_iff, reads_fraction_iff reads_decimalDigits_iff,
    reads_exponent_iff]
  constructor
  · rintro ⟨d, t, rfl, hd, ds, t, rfl, hds, fraction, exponent, rfl, hf, he⟩
    exact ⟨d :: ds, fraction, exponent, rfl, ⟨d, ds, rfl, hd, hds⟩, hf, he⟩
  · rintro ⟨_, fraction, exponent, rfl, ⟨d, ds, rfl, hd, hds⟩, hf, he⟩
    exact ⟨d, _, rfl, hd, ds, _, rfl, hds, fraction, exponent, rfl, hf, he⟩

theorem reads_numeral_iff : numeral.Reads u ↔ IsNumeral u := by
  rw [numeral, altAll, altAll, altAll, altAll, reads_alt_iff, reads_alt_iff, reads_alt_iff,
    reads_hexadecimal_iff, octal, binary, reads_based_iff, reads_based_iff, reads_decimal_iff]
  constructor
  · rintro (⟨digits, fraction, exponent, rfl, hd, hf, he⟩ | ⟨digits, rfl, hd⟩ |
      ⟨digits, rfl, hd⟩ | ⟨digits, fraction, exponent, rfl, hd, hf, he⟩)
    · exact .hexadecimal hd hf he
    · exact .octal hd
    · exact .binary hd
    · exact .decimal hd hf he
  · rintro (⟨hd, hf, he⟩ | hd | hd | ⟨hd, hf, he⟩)
    · exact .inl ⟨_, _, _, rfl, hd, hf, he⟩
    · exact .inr (.inl ⟨_, rfl, hd⟩)
    · exact .inr (.inr (.inl ⟨_, rfl, hd⟩))
    · exact .inr (.inr (.inr ⟨_, _, _, rfl, hd, hf, he⟩))

end Literals

section Preference

open Literal

variable {p q : Pattern} {s e e' : Cursor} {mark mark' : Char}

def marked (mark : Char) (p : Pattern) : Pattern := seq (char '0') (seq (char mark) p)

theorem exists_of_mem_ends_marked (he : e ∈ (marked mark p).ends s) :
    ∃ t, s.2 = '0' :: mark :: t ∧ s.1 + 2 ≤ e.1 := by
  obtain ⟨u, hu, hn, hread⟩ := exists_reads_of_mem_ends he
  obtain ⟨v, rfl, hv⟩ := reads_char_seq_iff.1 hread
  obtain ⟨t, rfl, -⟩ := reads_char_seq_iff.1 hv
  refine ⟨t ++ e.2, hu, ?_⟩
  rw [hn, List.length_cons, List.length_cons]
  omega

theorem not_mem_ends_marked (hm : mark ≠ mark') (he : e ∈ (marked mark p).ends s) :
    e' ∉ (marked mark' q).ends s := by
  intro he'
  obtain ⟨t, ht, -⟩ := exists_of_mem_ends_marked he
  obtain ⟨t', ht', -⟩ := exists_of_mem_ends_marked he'
  rw [ht] at ht'
  injection ht' with _ htail
  injection htail with hmark _
  exact hm hmark

theorem decimal_lt_of_marked (hm : mark ∈ ['x', 'o', 'b']) (he : e ∈ (marked mark p).ends s)
    (he' : e' ∈ decimal.ends s) : e'.1 < e.1 := by
  obtain ⟨t, ht, hlt⟩ := exists_of_mem_ends_marked he
  obtain ⟨n, u⟩ := s
  obtain rfl : u = '0' :: mark :: t := ht
  have hzero : decimal.ends (n, '0' :: mark :: t) = [(n + 1, mark :: t)] := by
    simp only [List.mem_cons, List.not_mem_nil, or_false] at hm
    rcases hm with rfl | rfl | rfl
    · rfl
    · rfl
    · rfl
  rw [hzero, List.mem_singleton] at he'
  rw [he']
  exact hlt

theorem decreasing_ends_numeral (s : Cursor) :
    (numeral.ends s).Pairwise fun e e' => e'.1 < e.1 := by
  have hbase {p : Pattern} (h : p.isDeterministic) := (greedy_ends h).decreasing s
  have hbinary : ((alt binary decimal).ends s).Pairwise fun e e' => e'.1 < e.1 :=
    List.pairwise_append.2 ⟨hbase (by decide), hbase (by decide), fun _ he _ he' =>
      decimal_lt_of_marked (show 'b' ∈ ['x', 'o', 'b'] by decide) he he'⟩
  have hoctal : ((alt octal (alt binary decimal)).ends s).Pairwise fun e e' => e'.1 < e.1 := by
    refine List.pairwise_append.2 ⟨hbase (by decide), hbinary, fun e he e' he' => ?_⟩
    rcases List.mem_append.1 he' with he' | he'
    · exact absurd he' (not_mem_ends_marked (by decide) he)
    · exact decimal_lt_of_marked (show 'o' ∈ ['x', 'o', 'b'] by decide) he he'
  refine List.pairwise_append.2 ⟨hbase (by decide), hoctal, fun e he e' he' => ?_⟩
  rcases List.mem_append.1 he' with he' | he'
  · exact absurd he' (not_mem_ends_marked (by decide) he)
  · rcases List.mem_append.1 he' with he' | he'
    · exact absurd he' (not_mem_ends_marked (by decide) he)
    · exact decimal_lt_of_marked (show 'x' ∈ ['x', 'o', 'b'] by decide) he he'

theorem reads_numeral : numeral.Reads = IsNumeral := funext fun _ => propext reads_numeral_iff

theorem reach?_standardNumber_eq_some_iff {t : Text} {n : Nat} :
    standardNumber.matcher.reach? t = some n ↔ ∃ u, IsLongest IsNumeral u t ∧ n = u.length := by
  rw [← reads_numeral]
  exact reach?_anchored_iff_longest (by decide) (by decide) (decreasing_ends_numeral _)

theorem reach?_standardNumber_eq_none_iff {t : Text} :
    standardNumber.matcher.reach? t = none ↔ ∀ u, u <+: t → ¬ IsNumeral u := by
  rw [← reads_numeral]
  exact reach?_anchored_eq_none_iff (by decide) (by decide)

end Preference

/-- The standard pattern takes the longest literal of its language, which is the given one. -/
theorem lengthAt?_standardNumber_longest (t : Text) (pos : Nat) :
    ofText? standardNumberText = some standardNumber ∧
      (∀ u, standardNumber.Reads u ↔ IsNumeral u) ∧
      (∀ n, standardNumber.matcher.lengthAt? t pos = some n ↔
        ∃ before rest literal : Text, t = before ++ rest ∧ pos = before.byteSize ∧
          n = literal.byteSize ∧ literal <+: rest ∧ IsNumeral literal ∧
          ∀ longer, longer <+: rest → IsNumeral longer → longer.length ≤ literal.length) ∧
      (standardNumber.matcher.lengthAt? t pos = none ↔
        ¬ t.IsBoundary pos ∨ ∃ before rest : Text, t = before ++ rest ∧ pos = before.byteSize ∧
          ∀ literal, literal <+: rest → ¬ IsNumeral literal) := by
  refine ⟨ofText?_standardNumberText, fun u => reads_anchored_iff.trans reads_numeral_iff, ?_, ?_⟩
  · intro n
    constructor
    · intro h
      obtain ⟨before, rest, rfl, rfl⟩ := Text.isBoundary_iff.1 (Matcher.isBoundary_of_lengthAt? h)
      rw [Matcher.lengthAt?_append, Option.map_eq_some_iff] at h
      obtain ⟨k, hk, rfl⟩ := h
      obtain ⟨u, hu, rfl⟩ := reach?_standardNumber_eq_some_iff.1 hk
      refine ⟨before, rest, u, rfl, rfl, ?_, hu.isPrefix, hu.holds, fun _ => hu.longest⟩
      rw [← List.prefix_iff_eq_take.1 hu.isPrefix]
    · rintro ⟨before, rest, literal, rfl, rfl, rfl, hfirst, hnumeral, hlongest⟩
      have hreach := reach?_standardNumber_eq_some_iff.2
        ⟨literal, ⟨hfirst, hnumeral, hlongest _⟩, rfl⟩
      rw [Matcher.lengthAt?_append, hreach, Option.map_some, ← List.prefix_iff_eq_take.1 hfirst]
  · constructor
    · intro h
      by_cases hb : t.IsBoundary pos
      · obtain ⟨before, rest, rfl, rfl⟩ := Text.isBoundary_iff.1 hb
        rw [Matcher.lengthAt?_append, Option.map_eq_none_iff] at h
        exact .inr ⟨before, rest, rfl, rfl, reach?_standardNumber_eq_none_iff.1 h⟩
      · exact .inl hb
    · rintro (hb | ⟨before, rest, rfl, rfl, hnone⟩)
      · exact Option.eq_none_iff_forall_ne_some.2 fun n hn =>
          hb (Matcher.isBoundary_of_lengthAt? hn)
      · rw [Matcher.lengthAt?_append, reach?_standardNumber_eq_none_iff.2 hnone, Option.map_none]

end Pattern

end Highlight
