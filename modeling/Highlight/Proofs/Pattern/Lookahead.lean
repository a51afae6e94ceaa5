import Highlight.Proofs.Pattern.Alphabet
import Mathlib.Data.List.Basic
import Mathlib.Data.Nat.Init

/-!
# Where a match stops

A character that is in none of a pattern's classes ends every match in front of it: how the text
goes on behind that character makes no difference (`ends_append_cons`). Repetitions have more
rounds to make in the longer text, but no more than the shorter one allows ever advance
(`repeatEnds_of_lt`). So a number ends in front of a space whatever follows.
-/

namespace Highlight.Pattern

/-- No match reads a character, or asks whether the text ends. -/
def stopsAt (c : Char) : Pattern → Bool
  | one k => !k.contains c
  | seq p q => p.stopsAt c && q.stopsAt c
  | alt p q => p.stopsAt c && q.stopsAt c
  | star p => p.stopsAt c
  | empty | atStart => true
  | atEnd => false

def Cursor.extend (rest : Text) (s : Cursor) : Cursor := (s.1, s.2 ++ rest)

variable {p : Pattern} {c : Char}

theorem length_lt_of_mem_ends {s e : Cursor} (h : e ∈ p.ends s) (hlt : s.1 < e.1) :
    e.2.length < s.2.length := by
  obtain ⟨u, hu, hn, -⟩ := exists_reads_of_mem_ends h
  rw [hu, List.length_append]
  omega

theorem repeatEnds_succ {bound : Nat} {s : Cursor} (h : s.2.length < bound) :
    repeatEnds p.ends (bound + 1) s = repeatEnds p.ends bound s := by
  induction bound generalizing s with
  | zero => exact absurd h (Nat.not_lt_zero _)
  | succ bound ih =>
    rw [repeatEnds, repeatEnds]
    congr 1
    refine List.flatMap_congr fun e he => ?_
    by_cases hlt : s.1 < e.1
    · have hlength := length_lt_of_mem_ends he hlt
      rw [if_pos hlt, if_pos hlt, ih (by omega)]
    · rw [if_neg hlt, if_neg hlt]

theorem repeatEnds_of_lt {bound : Nat} {s : Cursor} (h : s.2.length < bound) :
    repeatEnds p.ends bound s = repeatEnds p.ends (s.2.length + 1) s := by
  induction bound, h using Nat.le_induction with
  | base => rfl
  | succ bound h ih => rw [repeatEnds_succ h, ih]

theorem repeatEnds_extend {step : Cursor → List Cursor} {rest : Text}
    (h : ∀ s : Cursor, step (s.extend rest) = (step s).map (Cursor.extend rest)) (bound : Nat)
    (s : Cursor) :
    repeatEnds step bound (s.extend rest) = (repeatEnds step bound s).map (Cursor.extend rest) := by
  induction bound generalizing s with
  | zero => rfl
  | succ bound ih =>
    rw [repeatEnds, repeatEnds, h, List.flatMap_map, List.map_append, List.map_flatMap]
    congr 1
    refine List.flatMap_congr fun e _ => ?_
    by_cases hlt : s.1 < e.1
    · rw [if_pos hlt]
      exact (if_pos hlt).trans (ih e)
    · rw [if_neg hlt]
      exact if_neg hlt

theorem ends_append_cons (hp : p.stopsAt c) (u : Text) (s : Cursor) :
    p.ends (s.extend (c :: u)) = (p.ends s).map (Cursor.extend (c :: u)) := by
  induction p generalizing s with
  | empty => rfl
  | one k =>
    obtain ⟨n, t⟩ := s
    have hc : k.contains c = false := by simpa [stopsAt] using hp
    cases t with
    | nil => simp [Cursor.extend, ends, hc]
    | cons d t =>
      by_cases hd : k.contains d
      · simp [Cursor.extend, ends, hd]
      · simp [Cursor.extend, ends, hd]
  | atStart =>
    by_cases hs : s.1 = 0
    · simp [Cursor.extend, ends, hs]
    · simp [Cursor.extend, ends, hs]
  | atEnd => cases hp
  | seq p q ihp ihq =>
    obtain ⟨hp, hq⟩ := Bool.and_eq_true_iff.1 hp
    rw [ends, ends, ihp hp, List.flatMap_map, List.map_flatMap]
    exact List.flatMap_congr fun e _ => ihq hq e
  | alt p q ihp ihq =>
    obtain ⟨hp, hq⟩ := Bool.and_eq_true_iff.1 hp
    rw [ends, ends, ihp hp, ihq hq, List.map_append]
  | star p ih =>
    have hlength : s.2.length < (s.extend (c :: u)).2.length + 1 := by
      simp only [Cursor.extend, List.length_append]
      omega
    rw [ends, ends, repeatEnds_extend (ih hp), repeatEnds_of_lt hlength]

theorem reach?_anchored_append_cons (hp : p.stopsAt c) (t u : Text) :
    (anchored p).matcher.reach? (t ++ c :: u) = (anchored p).matcher.reach? t := by
  have hfind : (anchored p).find? (t ++ c :: u) = (anchored p).find? t := by
    rw [find?_anchored, find?_anchored]
    have hends := ends_append_cons hp u (0, t)
    rw [Cursor.extend] at hends
    rw [hends, List.head?_map, Option.map_map]
    rfl
  simp only [Matcher.reach?, matcher, hfind]

theorem reach?_standardNumber_append_space (t u : Text) :
    standardNumber.matcher.reach? (t ++ ' ' :: u) = standardNumber.matcher.reach? t :=
  reach?_anchored_append_cons (by decide) t u

end Highlight.Pattern
