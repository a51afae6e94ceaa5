import Highlight.Text

/-!
# Patterns

Regular expressions with a preferred match. `ends` lists where a match may stop, the
preferred end first: of two alternatives the left one is preferred, and of two
repetitions the longer one. `find?` takes the leftmost start with a match and there the
preferred end. All positions count characters. Whatever a match passes is a text that the
pattern reads (`exists_reads_of_mem_ends`).
-/

namespace Highlight

structure CharClass where
  ranges : List (Char × Char)
  negated : Bool := false
  deriving DecidableEq, Repr

namespace CharClass

def contains (s : CharClass) (c : Char) : Bool :=
  (s.ranges.any fun r => r.1 ≤ c && c ≤ r.2) != s.negated

def single (c : Char) : CharClass := ⟨[(c, c)], false⟩

end CharClass

inductive Pattern
  | empty
  | one (s : CharClass)
  | atStart
  | atEnd
  | seq (p q : Pattern)
  | alt (p q : Pattern)
  | star (p : Pattern)
  deriving DecidableEq, Repr

namespace Pattern

/-- A position in a text: the number of characters passed, and the text that is left. -/
abbrev Cursor := Nat × Text

/-- Repeats a step. A round that does not advance is the last one. The bound is never
reached if it is greater than the length of the text that is left. -/
def repeatEnds (step : Cursor → List Cursor) : Nat → Cursor → List Cursor
  | 0, s => [s]
  | bound + 1, s =>
    (step s).flatMap (fun t => if s.1 < t.1 then repeatEnds step bound t else [t]) ++ [s]

def ends : Pattern → Cursor → List Cursor
  | empty, s => [s]
  | one k, (n, c :: t) => if k.contains c then [(n + 1, t)] else []
  | one _, (_, []) => []
  | atStart, s => if s.1 = 0 then [s] else []
  | atEnd, s => if s.2 = [] then [s] else []
  | seq p q, s => (p.ends s).flatMap q.ends
  | alt p q, s => p.ends s ++ q.ends s
  | star p, s => repeatEnds p.ends (s.2.length + 1) s

def findFrom? (p : Pattern) : Nat → Text → Option (Nat × Nat)
  | n, t =>
    match (p.ends (n, t)).head? with
    | some e => some (n, e.1)
    | none =>
      match t with
      | [] => none
      | _ :: t => findFrom? p (n + 1) t

def find? (p : Pattern) (t : Text) : Option (Nat × Nat) := findFrom? p 0 t

/-- The texts that a pattern can read, wherever they stand. -/
inductive Reads : Pattern → Text → Prop
  | empty : Reads empty []
  | one {k : CharClass} {c : Char} (h : k.contains c) : Reads (one k) [c]
  | atStart : Reads atStart []
  | atEnd : Reads atEnd []
  | seq {p q : Pattern} {u v : Text} (hp : Reads p u) (hq : Reads q v) : Reads (seq p q) (u ++ v)
  | altLeft {p q : Pattern} {u : Text} (hp : Reads p u) : Reads (alt p q) u
  | altRight {p q : Pattern} {u : Text} (hq : Reads q u) : Reads (alt p q) u
  | starNil {p : Pattern} : Reads (star p) []
  | starAppend {p : Pattern} {u v : Text} (hp : Reads p u) (hs : Reads (star p) v) :
      Reads (star p) (u ++ v)

theorem exists_reads_of_mem_repeatEnds {p : Pattern}
    (hp : ∀ {s e}, e ∈ p.ends s → ∃ u, s.2 = u ++ e.2 ∧ e.1 = s.1 + u.length ∧ p.Reads u)
    {bound : Nat} {s e : Cursor} (h : e ∈ repeatEnds p.ends bound s) :
    ∃ u, s.2 = u ++ e.2 ∧ e.1 = s.1 + u.length ∧ (star p).Reads u := by
  induction bound generalizing s with
  | zero =>
    rw [repeatEnds, List.mem_singleton] at h
    exact ⟨[], by rw [h, List.nil_append], by rw [h]; rfl, .starNil⟩
  | succ bound ih =>
    rw [repeatEnds, List.mem_append, List.mem_singleton] at h
    rcases h with h | rfl
    · obtain ⟨m, hm, he⟩ := List.mem_flatMap.1 h
      obtain ⟨u, hu, hun, hread⟩ := hp hm
      have hround : ∃ v, m.2 = v ++ e.2 ∧ e.1 = m.1 + v.length ∧ (star p).Reads v := by
        split at he
        · exact ih he
        · rw [List.mem_singleton.1 he]
          exact ⟨[], rfl, rfl, .starNil⟩
      obtain ⟨v, hv, hvn, hstar⟩ := hround
      refine ⟨u ++ v, ?_, ?_, .starAppend hread hstar⟩
      · rw [hu, hv, List.append_assoc]
      · rw [hvn, hun, List.length_append, Nat.add_assoc]
    · exact ⟨[], rfl, rfl, .starNil⟩

theorem exists_reads_of_mem_ends {p : Pattern} {s e : Cursor} (h : e ∈ p.ends s) :
    ∃ u, s.2 = u ++ e.2 ∧ e.1 = s.1 + u.length ∧ p.Reads u := by
  induction p generalizing s e with
  | empty =>
    rw [List.mem_singleton.1 h]
    exact ⟨[], rfl, rfl, .empty⟩
  | one k =>
    obtain ⟨n, t⟩ := s
    cases t with
    | nil => cases h
    | cons c t =>
      simp only [ends] at h
      split at h
      · next hc =>
        rw [List.mem_singleton.1 h]
        exact ⟨[c], rfl, rfl, .one hc⟩
      · cases h
  | atStart =>
    simp only [ends] at h
    split at h
    · rw [List.mem_singleton.1 h]
      exact ⟨[], rfl, rfl, .atStart⟩
    · cases h
  | atEnd =>
    simp only [ends] at h
    split at h
    · rw [List.mem_singleton.1 h]
      exact ⟨[], rfl, rfl, .atEnd⟩
    · cases h
  | seq p q hp hq =>
    obtain ⟨m, hm, he⟩ := List.mem_flatMap.1 h
    obtain ⟨u, hu, hun, hread⟩ := hp hm
    obtain ⟨v, hv, hvn, hread'⟩ := hq he
    refine ⟨u ++ v, ?_, ?_, .seq hread hread'⟩
    · rw [hu, hv, List.append_assoc]
    · rw [hvn, hun, List.length_append, Nat.add_assoc]
  | alt p q hp hq =>
    rcases List.mem_append.1 h with h | h
    · obtain ⟨u, hu, hun, hread⟩ := hp h
      exact ⟨u, hu, hun, .altLeft hread⟩
    · obtain ⟨u, hu, hun, hread⟩ := hq h
      exact ⟨u, hu, hun, .altRight hread⟩
  | star p hp => exact exists_reads_of_mem_repeatEnds hp h

theorem findFrom?_bounds {p : Pattern} {n start stop : Nat} {t : Text}
    (h : p.findFrom? n t = some (start, stop)) : start ≤ stop ∧ stop ≤ n + t.length := by
  induction t generalizing n with
  | nil =>
    simp only [findFrom?] at h
    split at h
    · next e he =>
      obtain ⟨passed, ht, hn, -⟩ := exists_reads_of_mem_ends (List.mem_of_head? he)
      cases h
      have hl := congrArg List.length ht
      simp only [List.length_nil, List.length_append] at hl hn ⊢
      omega
    · cases h
  | cons c t ih =>
    rw [findFrom?] at h
    split at h
    · next e he =>
      obtain ⟨passed, ht, hn, -⟩ := exists_reads_of_mem_ends (List.mem_of_head? he)
      cases h
      have hl := congrArg List.length ht
      simp only [List.length_cons, List.length_append] at hl hn ⊢
      omega
    · have hb := ih h
      rw [List.length_cons]
      omega

end Pattern

/-- A search for a match in a text, which gives the first and the last position of the
match that it prefers. A match lies inside the text. -/
structure Matcher where
  find? : Text → Option (Nat × Nat)
  find?_bounds : ∀ {t start stop}, find? t = some (start, stop) → start ≤ stop ∧ stop ≤ t.length

/-- How far a match in the text reaches, counted from the beginning of the text. A match
that reaches nowhere is none. -/
def Matcher.reach? (m : Matcher) (t : Text) : Option Nat :=
  match m.find? t with
  | some (_, stop) => if 0 < stop then some stop else none
  | none => none

def Matcher.lengthAt? (m : Matcher) (t : Text) (pos : Nat) : Option Nat := do
  let (_, rest) ← t.splitAt? pos
  return Text.byteSize (rest.take (← m.reach? rest))

theorem Matcher.lengthAt?_append (m : Matcher) (before rest : Text) :
    m.lengthAt? (before ++ rest) (Text.byteSize before) =
      (m.reach? rest).map fun k => Text.byteSize (rest.take k) := by
  rw [lengthAt?, Text.splitAt?_byteSize]
  exact (Option.map_eq_bind ..).symm

theorem Matcher.isBoundary_of_lengthAt? {m : Matcher} {t : Text} {pos n : Nat}
    (h : m.lengthAt? t pos = some n) : t.IsBoundary pos := by
  obtain ⟨parts, hparts, -⟩ := Option.bind_eq_some_iff.1 h
  exact Option.isSome_of_eq_some hparts

theorem Matcher.reach?_eq_some_iff {m : Matcher} {t : Text} {n : Nat} :
    m.reach? t = some n ↔ ∃ start, m.find? t = some (start, n) ∧ 0 < n := by
  constructor
  · intro h
    unfold reach? at h
    split at h
    · next start stop hf =>
      split at h
      · next hpos =>
        cases h
        exact ⟨start, hf, hpos⟩
      · cases h
    · cases h
  · rintro ⟨start, hf, hpos⟩
    simp only [reach?, hf, if_pos hpos]

theorem Matcher.reach?_bounds {m : Matcher} {t : Text} {n : Nat} (h : m.reach? t = some n) :
    0 < n ∧ n ≤ t.length := by
  obtain ⟨start, hfind, hpos⟩ := reach?_eq_some_iff.1 h
  exact ⟨hpos, (m.find?_bounds hfind).2⟩

namespace Pattern

def matcher (p : Pattern) : Matcher where
  find? := p.find?
  find?_bounds h := by simpa using findFrom?_bounds h

instance : Coe Pattern Matcher := ⟨matcher⟩

def reach? (p : Pattern) (t : Text) : Option Nat := p.matcher.reach? t

def char (c : Char) : Pattern := one (.single c)

def optional (p : Pattern) : Pattern := alt p empty

def plus (p : Pattern) : Pattern := seq p (star p)

def times (p : Pattern) : Nat → Pattern
  | 0 => empty
  | n + 1 => seq p (times p n)

def upTo (p : Pattern) : Nat → Pattern
  | 0 => empty
  | n + 1 => optional (seq p (upTo p n))

def seqAll : List Pattern → Pattern
  | [] => empty
  | [p] => p
  | p :: q :: ps => seq p (seqAll (q :: ps))

def altAll : List Pattern → Pattern
  | [] => empty
  | [p] => p
  | p :: q :: ps => alt p (altAll (q :: ps))

def anchored (p : Pattern) : Pattern := seq atStart p

namespace Literal

def digit : CharClass := ⟨[('0', '9')], false⟩
def digitOrSeparator : CharClass := ⟨[('0', '9'), ('_', '_')], false⟩
def hexDigit : CharClass := ⟨[('0', '9'), ('a', 'f'), ('A', 'F'), ('_', '_')], false⟩
def octalDigit : CharClass := ⟨[('0', '7'), ('_', '_')], false⟩
def binaryDigit : CharClass := ⟨[('0', '0'), ('1', '1'), ('_', '_')], false⟩
def sign : CharClass := ⟨[('+', '+'), ('-', '-')], false⟩

def exponent (mark : CharClass) : Pattern :=
  seqAll [one mark, optional (one sign), plus (one digitOrSeparator)]

def hexadecimal : Pattern :=
  seqAll [char '0', char 'x', plus (one hexDigit),
    optional (seq (char '.') (plus (one hexDigit))),
    optional (exponent ⟨[('p', 'p'), ('P', 'P')], false⟩)]

def octal : Pattern := seqAll [char '0', char 'o', plus (one octalDigit)]

def binary : Pattern := seqAll [char '0', char 'b', plus (one binaryDigit)]

def decimal : Pattern :=
  seqAll [one digit, star (one digitOrSeparator),
    optional (seqAll [char '.', one digit, star (one digitOrSeparator)]),
    optional (exponent ⟨[('e', 'e'), ('E', 'E')], false⟩)]

end Literal

def standardNumber : Pattern :=
  anchored (altAll [Literal.hexadecimal, Literal.octal, Literal.binary, Literal.decimal])

end Pattern

end Highlight
