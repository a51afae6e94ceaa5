import Highlight.CommandLine
import Highlight.Proofs.Listing.Rows

/-!
# A range of lines on the command line

A command line that asks for a file is a row of whole options, and a range of lines may be put
between any two of them. All that it changes is the range in the options that are read, so the
rows that are written then are those in the range, out of the ones that are written without
it (`run_lineRange`).
-/

namespace Highlight.CommandLine

/-- Whole options and files, read from some options on. -/
inductive Reads : Options → List Text → Options → Prop
  | nil (o : Options) : Reads o [] o
  | color {o o' : Options} {arg : Text} {args : List Text} : flag? arg = some .color →
      Reads { o with color := some true } args o' → Reads o (arg :: args) o'
  | noColor {o o' : Options} {arg : Text} {args : List Text} : flag? arg = some .noColor →
      Reads { o with color := some false } args o' → Reads o (arg :: args) o'
  | value {o next o' : Options} {arg value : Text} {args : List Text} {f : Flag} :
      flag? arg = some f → setValue? o value f = some next → Reads next args o' →
      Reads o (arg :: value :: args) o'
  | file {o o' : Options} {arg : Text} {args : List Text} : flag? arg = none →
      arg.head? ≠ some '-' → o.file = none → Reads { o with file := some arg } args o' →
      Reads o (arg :: args) o'

variable {o next o' : Options} {arg value file : Text} {args front back : List Text}

theorem parse_value {f : Flag} (harg : flag? arg = some f)
    (hvalue : setValue? o value f = some next) (args : List Text) :
    parse o (arg :: value :: args) = parse next args := by
  cases f with
  | help | version | color | noColor => cases hvalue
  | settings | lines | columns => simp only [parse, harg, hvalue]

theorem Reads.parse_append (h : Reads o front o') (back : List Text) :
    parse o (front ++ back) = parse o' back := by
  induction h with
  | nil o => rfl
  | color harg _ ih =>
    rw [List.cons_append, parse, harg]
    exact ih
  | noColor harg _ ih =>
    rw [List.cons_append, parse, harg]
    exact ih
  | value harg hvalue _ ih =>
    rw [List.cons_append, List.cons_append, parse_value harg hvalue]
    exact ih
  | file harg hdash hfile _ ih =>
    rw [List.cons_append, parse, harg]
    simp only [if_neg hdash, hfile, Option.isSome_none, Bool.false_eq_true, if_false]
    exact ih

theorem Reads.parse_eq (h : Reads o args o') (hfile : o'.file = some file) :
    parse o args = .ok (.list o' file) := by
  have hall := h.parse_append []
  rw [List.append_nil] at hall
  rw [hall, parse, hfile]

theorem reads_of_parse (h : parse o args = .ok (.list o' file)) :
    Reads o args o' ∧ o'.file = some file := by
  fun_induction parse o args with
  | case1 o f hf =>
    cases h
    exact ⟨.nil _, hf⟩
  | case2 | case3 | case4 | case7 | case9 | case10 | case11 => cases h
  | case5 o arg args harg ih => exact ⟨.color harg (ih h).1, (ih h).2⟩
  | case6 o arg args harg ih => exact ⟨.noColor harg (ih h).1, (ih h).2⟩
  | case8 o arg f _ _ _ _ harg value args next hvalue ih =>
    exact ⟨.value harg hvalue (ih h).1, (ih h).2⟩
  | case12 o arg args hnone hdash hfile ih =>
    exact ⟨.file hnone hdash (by simpa using hfile) (ih h).1, (ih h).2⟩

theorem Reads.lines_isSome (h : Reads o args o') (hlines : o.lines.isSome) : o'.lines.isSome := by
  induction h with
  | nil o => exact hlines
  | color _ _ ih | noColor _ _ ih | file _ _ _ _ ih => exact ih hlines
  | @value o next o' arg value args f _ hvalue _ ih =>
    refine ih ?_
    cases f with
    | help | version | color | noColor => cases hvalue
    | settings =>
      cases hvalue
      exact hlines
    | lines =>
      obtain ⟨r, -, rfl⟩ := Option.map_eq_some_iff.mp hvalue
      rfl
    | columns =>
      obtain ⟨w, -, rfl⟩ := Option.map_eq_some_iff.mp hvalue
      exact hlines

theorem Reads.with_lines (h : Reads o args o') (hwhole : o'.lines = none)
    (r : Option (Nat × Nat)) : Reads { o with lines := r } args { o' with lines := r } := by
  induction h with
  | nil o => exact .nil _
  | color harg _ ih => exact .color harg (ih hwhole)
  | noColor harg _ ih => exact .noColor harg (ih hwhole)
  | file harg hdash hfile _ ih => exact .file harg hdash hfile (ih hwhole)
  | @value o next o' arg value args f harg hvalue hrest ih =>
    have hset : setValue? { o with lines := r } value f = some { next with lines := r } := by
      cases f with
      | help | version | color | noColor => cases hvalue
      | settings =>
        cases hvalue
        rfl
      | columns =>
        obtain ⟨w, hw, rfl⟩ := Option.map_eq_some_iff.mp hvalue
        rw [setValue?, hw, Option.map_some]
      | lines =>
        -- A range that is read here would still be there in the end.
        obtain ⟨w, -, rfl⟩ := Option.map_eq_some_iff.mp hvalue
        have hsome := hrest.lines_isSome rfl
        rw [hwhole] at hsome
        cases hsome
    exact .value harg hset (ih hwhole)

theorem parse_lines {r : Nat × Nat} (hfront : Reads {} front o)
    (hall : parse {} (front ++ back) = .ok (.list o' file)) (hwhole : o'.lines = none)
    (harg : flag? arg = some .lines) (hvalue : lineRange? value = some r) :
    parse {} (front ++ arg :: value :: back) = .ok (.list { o' with lines := some r } file) := by
  rw [hfront.parse_append] at hall ⊢
  obtain ⟨hback, hfile⟩ := reads_of_parse hall
  have hset : setValue? o value .lines = some { o with lines := some r } := by
    rw [setValue?, hvalue, Option.map_some]
  rw [parse_value harg hset]
  exact (hback.with_lines hwhole (some r)).parse_eq hfile

/-! ## Ranges as they are written -/

def rangeText (first last : Nat) : Text := Nat.toDigits 10 first ++ ':' :: Nat.toDigits 10 last

theorem isDigit_of_mem_digits {n : Nat} {c : Char} (h : c ∈ Nat.toDigits 10 n) : c.isDigit :=
  Nat.isDigit_of_mem_toDigits (by decide) (by decide) h

theorem isSpace_of_isDigit {c : Char} (h : c.isDigit) : isSpace c = false := by
  have hbounds : 48 ≤ c.toNat ∧ c.toNat ≤ 57 := by
    simpa [Char.isDigit, UInt32.le_iff_toNat_le] using h
  simp only [isSpace, Bool.or_eq_false_iff, Bool.and_eq_false_iff, decide_eq_false_iff_not]
  omega

theorem trim_digits (n : Nat) : trim (Nat.toDigits 10 n) = Nat.toDigits 10 n := by
  have hkeep (t : Text) (h : ∀ c ∈ t, c.isDigit) : t.dropWhile isSpace = t := by
    cases t with
    | nil => rfl
    | cons c t =>
      exact List.dropWhile_cons_of_neg (by simp [isSpace_of_isDigit (h c List.mem_cons_self)])
  rw [trim, hkeep _ fun c hc => isDigit_of_mem_digits hc,
    hkeep _ fun c hc => isDigit_of_mem_digits (List.mem_reverse.1 hc), List.reverse_reverse]

theorem number?_digits {n : Nat} (h : n < UInt64.size) : number? (Nat.toDigits 10 n) = some n := by
  have hplus (t : Text) : Nat.toDigits 10 n ≠ '+' :: t := fun ht =>
    absurd (isDigit_of_mem_digits (n := n) (c := '+') (by rw [ht]; exact List.mem_cons_self))
      (by decide)
  have hall : (Nat.toDigits 10 n).all Char.isDigit :=
    List.all_eq_true.2 fun c hc => isDigit_of_mem_digits hc
  have hvalue : Toml.decimalValue (Nat.toDigits 10 n) = n := Nat.ofDigitChars_ten_toDigits
  rw [number?]
  · rw [if_neg (by simp [Nat.toDigits_ne_nil, hall]), hvalue]
    exact if_pos h
  · exact hplus

theorem range?_rangeText {first last : Nat} (hfirst : first < UInt64.size)
    (hlast : last < UInt64.size) : range? (rangeText first last) = some (first, last) := by
  have hcolon : ∀ c ∈ Nat.toDigits 10 first, decide (c ≠ ':') := by
    intro c hc
    refine decide_eq_true fun heq => ?_
    exact absurd (isDigit_of_mem_digits (heq ▸ hc)) (by decide)
  have hstart : (rangeText first last).takeWhile (· ≠ ':') = Nat.toDigits 10 first := by
    rw [rangeText, List.takeWhile_append_of_pos hcolon,
      List.takeWhile_cons_of_neg (by decide), List.append_nil]
  have hstop : (rangeText first last).drop (Nat.toDigits 10 first).length =
      ':' :: Nat.toDigits 10 last := List.drop_left
  simp only [range?, hstart, hstop, trim_digits, number?_digits hfirst, number?_digits hlast]
  rfl

theorem lineRange?_rangeText {first last : Nat} (hpos : 1 ≤ first) (hle : first ≤ last)
    (hlast : last < UInt64.size) :
    lineRange? (rangeText first last) = some (first - 1, last) := by
  rw [lineRange?, range?_rangeText (Nat.lt_of_le_of_lt hle hlast) hlast]
  exact if_pos ⟨hpos, hle⟩

/-! ## Runs with and without a range -/

section

variable {m : Type → Type} [Monad m] {fs : FileSystem m} {s : Settings} {content : Text}

def shown (fs : FileSystem m) (o : Options) (file : Text) (s : Settings) (content : Text) :
    Listing where
  settings := s
  path := file
  content := content
  lines := o.lines
  columns := o.columns
  coloring := if o.color.getD fs.terminal then .colored else .plain
  width := fs.width

theorem run_eq [LawfulMonad m] (hargs : parse {} args = .ok (.list o file))
    (hsettings : settings fs o = pure (.ok s)) (hcontent : fs.read file = pure (.ok content)) :
    run fs args = pure { output := (shown fs o file s content).text } := by
  have hlisting : listing fs o file = pure (.ok (shown fs o file s content)) := by
    rw [listing, hsettings, pure_bind]
    dsimp only
    rw [hcontent, pure_bind]
    rfl
  rw [run, hargs]
  dsimp only
  rw [hlisting, pure_bind]

/-- A range of lines among the options leaves the rows in the range, out of those that are
written without it, whatever the columns of a character and the reader of documents are. -/
theorem run_lineRange [LawfulMonad m] {first last : Nat} (hfront : Reads {} front o)
    (hall : parse {} (front ++ back) = .ok (.list o' file)) (hwhole : o'.lines = none)
    (harg : flag? arg = some .lines) (hpos : 1 ≤ first) (hle : first ≤ last)
    (hlast : last < UInt64.size) (hsettings : settings fs o' = pure (.ok s))
    (hcontent : fs.read file = pure (.ok content)) :
    ∃ rows : List Text, rows.length = max 1 content.fileLines.length ∧ Text.NewlineFree rows ∧
      run fs (front ++ back) = pure { output := rows.flatMap (· ++ ['\n']) } ∧
      run fs (front ++ arg :: rangeText first last :: back) =
        pure { output := ((rows.take last).drop (first - 1)).flatMap (· ++ ['\n']) } := by
  have hrange := parse_lines hfront hall hwhole harg (lineRange?_rangeText hpos hle hlast)
  refine ⟨(shown fs o' file s content).rows, Listing.length_rows _, Listing.newlineFree_rows _,
    ?_, ?_⟩
  · rw [run_eq hall hsettings hcontent, Listing.text_of_whole hwhole]
  · rw [run_eq hrange hsettings hcontent, Listing.text_of_lines rfl]
    rfl

end

def oneFile (file content : Text) : FileSystem Id where
  read path := if path = file then .ok content else .error .notFound
  isPresent path := decide (path = file)
  settingsPath := none
  terminal := false

theorem run_lineRange_comment :
    let file : Text := ['a', '.', 'z', 'i', 'g']
    let fs := oneFile file ['/', '*', '\n', 'x', '*', '/', '\n', 'y', '\n']
    let color : Text := "--color".toList
    let ranged : Outcome := run fs ([color] ++ ['-', 'l'] :: rangeText 2 2 :: [file])
    (∃ rows : List Text, rows.length = 3 ∧ Text.NewlineFree rows ∧
      run fs [color, file] = ({ output := rows.flatMap (· ++ ['\n']) } : Outcome) ∧
      ranged = { output := ((rows.take 2).drop 1).flatMap (· ++ ['\n']) }) ∧
      ranged = { output := "\x1b[0m\x1b[38;5;8m\x1b[3mx*/\x1b[0m\n".toList } := by
  intro file fs color ranged
  have hfront : Reads {} [color] { color := some true } := .color (by decide) (.nil _)
  have hall : parse {} ([color] ++ [file]) =
      .ok (.list { color := some true, file := some file } file) := rfl
  have hcontent : fs.read file =
      pure (.ok ['/', '*', '\n', 'x', '*', '/', '\n', 'y', '\n']) := rfl
  exact ⟨run_lineRange hfront hall rfl (by decide) (by decide) (by decide) (by decide) rfl
    hcontent, by decide +kernel⟩

end Highlight.CommandLine
