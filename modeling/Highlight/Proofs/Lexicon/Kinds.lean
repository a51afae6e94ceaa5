import Highlight.Zig
import Mathlib.Data.List.Basic

/-!
# Precedence by kind

Rules of different kinds do not compete by their places in the list: each part of a step looks at
the rules of one kind only, and so does the search for the region that a line begins in. Lists
whose rules of each kind stand in the same order therefore classify every line alike
(`classify_eq_of_kinds`), in whatever way the kinds are mixed in them.
-/

namespace Highlight

inductive RuleKind
  | toLineEnd
  | region
  | delimited
  | numbers
  | sigilWord
  | markedWord
  deriving DecidableEq

def Rule.kind : Rule → RuleKind
  | toLineEnd _ _ => .toLineEnd
  | region _ => .region
  | delimited _ => .delimited
  | numbers _ => .numbers
  | sigilWord _ _ => .sigilWord
  | markedWord _ _ => .markedWord

theorem findSome?_filter {α β : Type} {f : α → Option β} {p : α → Bool}
    (h : ∀ a, p a = false → f a = none) (l : List α) :
    (l.filter p).findSome? f = l.findSome? f := by
  induction l with
  | nil => rfl
  | cons a l ih =>
    cases hp : p a with
    | true => rw [List.filter_cons_of_pos hp, List.findSome?_cons, List.findSome?_cons, ih]
    | false => rw [List.filter_cons_of_neg (by simp [hp]), List.findSome?_cons, h a hp, ih]

theorem Rule.findSome?_filter_kind {α : Type} {f : Rule → Option α} {p : Rule → Bool}
    {k : RuleKind} (hf : ∀ r, r.kind ≠ k → f r = none) (hp : ∀ r, r.kind = k → p r)
    (rules : List Rule) : (rules.filter p).findSome? f = rules.findSome? f := by
  refine findSome?_filter ?_ rules
  intro r hr
  refine hf r fun hk => ?_
  exact absurd (hp r hk) (Bool.eq_false_iff.1 hr)

section Filter

variable {p : Rule → Bool} (rules : List Rule) (t : Text)

theorem findRegion?_filter (hp : ∀ r, r.kind = .region → p r) (id : RegionId) :
    findRegion? (rules.filter p) id = findRegion? rules id := by
  refine Rule.findSome?_filter_kind (fun r hr => ?_) hp rules
  cases r with
  | region => exact absurd rfl hr
  | _ => rfl

namespace Step

theorem toLineEnd?_filter (hp : ∀ r, r.kind = .toLineEnd → p r) :
    toLineEnd? (rules.filter p) t = toLineEnd? rules t := by
  refine Rule.findSome?_filter_kind (fun r hr => ?_) hp rules
  cases r with
  | toLineEnd => exact absurd rfl hr
  | _ => rfl

theorem region?_filter (hp : ∀ r, r.kind = .region → p r) :
    region? (rules.filter p) t = region? rules t := by
  refine Rule.findSome?_filter_kind (fun r hr => ?_) hp rules
  cases r with
  | region => exact absurd rfl hr
  | _ => rfl

theorem delimited?_filter (hp : ∀ r, r.kind = .delimited → p r) :
    delimited? (rules.filter p) t = delimited? rules t := by
  refine Rule.findSome?_filter_kind (fun r hr => ?_) hp rules
  cases r with
  | delimited => exact absurd rfl hr
  | _ => rfl

theorem number?_filter (hp : ∀ r, r.kind = .numbers → p r) (previous : Option Char) :
    number? (rules.filter p) previous t = number? rules previous t := by
  unfold number?
  split
  · refine Rule.findSome?_filter_kind (fun r hr => ?_) hp rules
    cases r with
    | numbers => exact absurd rfl hr
    | _ => rfl
  · rfl

theorem sigilWord?_filter (hp : ∀ r, r.kind = .sigilWord → p r) :
    sigilWord? (rules.filter p) t = sigilWord? rules t := by
  refine Rule.findSome?_filter_kind (fun r hr => ?_) hp rules
  cases r with
  | sigilWord => exact absurd rfl hr
  | _ => rfl

theorem markedCategory?_filter (hp : ∀ r, r.kind = .markedWord → p r) :
    markedCategory? (rules.filter p) t = markedCategory? rules t := by
  refine Rule.findSome?_filter_kind (fun r hr => ?_) hp rules
  cases r with
  | markedWord => exact absurd rfl hr
  | _ => rfl

end Step

end Filter

namespace Rule

/-- The rules of each kind stand in the same order in both lists. -/
def SameByKind (rules rules' : List Rule) : Prop :=
  ∀ k, rules.filter (·.kind = k) = rules'.filter (·.kind = k)

variable {rules rules' : List Rule}

theorem SameByKind.append_left (h : SameByKind rules rules') (first : List Rule) :
    SameByKind (first ++ rules) (first ++ rules') := by
  intro k
  rw [List.filter_append, List.filter_append, h k]

theorem SameByKind.congr (h : SameByKind rules rules') {α : Type} {f : List Rule → α}
    {k : RuleKind}
    (hf : ∀ rules {p : Rule → Bool}, (∀ r, r.kind = k → p r) → f (rules.filter p) = f rules) :
    f rules = f rules' := by
  have hkind (rules : List Rule) : f (rules.filter (·.kind = k)) = f rules :=
    hf rules fun _ hr => decide_eq_true hr
  rw [← hkind rules, h k, hkind rules']

end Rule

namespace Lexicon

variable {rules rules' : List Rule} (keywords : Table Text Category)

theorem step_eq_of_kinds (h : Rule.SameByKind rules rules') (previous : Option Char) (t : Text) :
    (Lexicon.mk keywords rules).step previous t = (Lexicon.mk keywords rules').step previous t := by
  have hline : Step.toLineEnd? rules t = Step.toLineEnd? rules' t :=
    h.congr fun rules _ hp => Step.toLineEnd?_filter rules t hp
  have hregion : Step.region? rules t = Step.region? rules' t :=
    h.congr fun rules _ hp => Step.region?_filter rules t hp
  have hdelimited : Step.delimited? rules t = Step.delimited? rules' t :=
    h.congr fun rules _ hp => Step.delimited?_filter rules t hp
  have hnumber : Step.number? rules previous t = Step.number? rules' previous t :=
    h.congr (f := (Step.number? · previous t)) fun rules _ hp =>
      Step.number?_filter rules t hp previous
  have hsigil : Step.sigilWord? rules t = Step.sigilWord? rules' t :=
    h.congr fun rules _ hp => Step.sigilWord?_filter rules t hp
  have hmarked (rest : Text) : Step.markedCategory? rules rest = Step.markedCategory? rules' rest :=
    h.congr fun rules _ hp => Step.markedCategory?_filter rules rest hp
  have hword : Step.word? ⟨keywords, rules⟩ t = Step.word? ⟨keywords, rules'⟩ t := by
    simp only [Step.word?, hmarked]
  simp only [step, hline, hregion, hdelimited, hnumber, hsigil, hword]

theorem scan_eq_of_kinds (h : Rule.SameByKind rules rules') (previous : Option Char) (t : Text) :
    (Lexicon.mk keywords rules).scan previous t = (Lexicon.mk keywords rules').scan previous t := by
  fun_induction scan (Lexicon.mk keywords rules) previous t with
  | case1 => rw [scan]
  | case2 previous c t s piece ih =>
    rw [scan, ← step_eq_of_kinds keywords h, ih]

theorem lex_eq_of_kinds (h : Rule.SameByKind rules rules') (before : LineState) (t : Text) :
    (Lexicon.mk keywords rules).lex before t = (Lexicon.mk keywords rules').lex before t := by
  have hregion (id : RegionId) : findRegion? rules id = findRegion? rules' id :=
    h.congr fun rules _ hp => findRegion?_filter rules hp id
  unfold lex
  simp only [scan_eq_of_kinds keywords h, hregion]

end Lexicon

namespace Language

theorem foldl_addRule (l : Language) (rules : List Rule) :
    rules.foldl addRule l = { l with lexicon.rules := l.lexicon.rules ++ rules } := by
  induction rules generalizing l with
  | nil => rw [List.append_nil]; rfl
  | cons r rules ih =>
    rw [List.foldl_cons, ih, addRule, List.append_assoc, List.singleton_append]

/-- Precedence goes by the kinds of rules, not by the order in which rules of different kinds are
registered: every line is classified alike, or fails alike, whatever is known besides. -/
theorem classify_eq_of_kinds {rules rules' : List Rule} (h : Rule.SameByKind rules rules')
    (keywords : Table Text Category) (before : LineState) (t : Text) :
    (Lexicon.mk keywords rules).classify before t = (Lexicon.mk keywords rules').classify before t ∧
      ∀ l : Language, (rules.foldl addRule l).classify before t =
        (rules'.foldl addRule l).classify before t := by
  constructor
  · rw [Lexicon.classify, Lexicon.classify, Lexicon.lex_eq_of_kinds keywords h]
  · intro l
    rw [foldl_addRule, foldl_addRule, classify, classify, Lexicon.classify, Lexicon.classify,
      Lexicon.lex_eq_of_kinds _ (h.append_left l.lexicon.rules)]

theorem classify_eq_of_kinds_mixed :
    let r : Rule := .region ⟨['b'], ['<'], ['>'], none, .string, ⟨2, by decide⟩, by decide, by decide⟩
    let rules : List Rule := Zig.rules ++ [r]
    let rules' : List Rule := Zig.rules.drop 3 ++ r :: Zig.rules.take 3
    let t : Text := ['a', '>', '/', '*', '<', '*', '/', '<', '"', '1', '.', '@', 'i', 'f']
    let before : LineState := .inside ⟨2, by decide⟩
    Rule.SameByKind rules rules' ∧
      (Lexicon.mk ∅ rules).classify before t = (Lexicon.mk ∅ rules').classify before t ∧
      (Lexicon.mk ∅ rules').classify before t =
        .ok ⟨[⟨0, 2, .string⟩, ⟨2, 7, .comment⟩, ⟨7, 14, .string⟩], before⟩ := by
  intro r rules rules' t before
  have hsame : Rule.SameByKind rules rules' := by
    intro k
    cases k <;> rfl
  exact ⟨hsame, (classify_eq_of_kinds hsame ∅ before t).1, by decide +kernel⟩

end Language

end Highlight
