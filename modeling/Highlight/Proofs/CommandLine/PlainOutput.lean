import Highlight.Proofs.CommandLine.LineRange
import Highlight.Proofs.Display.Tiling
import Highlight.Proofs.Settings.Documents
import Highlight.Proofs.Text.Endings
import Mathlib.Data.List.Forall2

/-!
# Output without colors

Without colors and without ranges a run writes the file itself, line by line, with blanks in the
place of tabs (`run_plain`). A window that covers a line shows all its characters, whatever spans
the line has (`cells_covering`), so the settings matter only for the tab width.
-/

namespace Highlight

/-- A text that begins at a column, and what is shown of it: a tab is a row of blanks up to the
next column that the tab width divides, and any other character is shown as it is. -/
inductive Expands (tabWidth : Nat) (width : Char → Nat) : Nat → Text → Text → Prop
  | nil (col : Nat) : Expands tabWidth width col [] []
  | tab {col : Nat} (n : Nat) {t shown : Text} : 1 ≤ n → n ≤ tabWidth → tabWidth ∣ col + n →
      Expands tabWidth width (col + n) t shown →
      Expands tabWidth width col ('\t' :: t) (List.replicate n ' ' ++ shown)
  | char {col : Nat} (c : Char) {t shown : Text} : c ≠ '\t' →
      Expands tabWidth width (col + width c) t shown →
      Expands tabWidth width col (c :: t) (c :: shown)

namespace Metrics

variable {m : Metrics} {w : Window}

theorem cellWidth_tab (m : Metrics) (col : Nat) :
    m.cellWidth col '\t' = m.tabWidth - col % m.tabWidth := if_pos rfl

theorem dvd_add_cellWidth_tab (m : Metrics) (col : Nat) :
    m.tabWidth ∣ col + m.cellWidth col '\t' := by
  have hdivision := Nat.div_add_mod col m.tabWidth
  have hmod := Nat.mod_lt col m.tabWidth_pos
  refine ⟨col / m.tabWidth + 1, ?_⟩
  rw [cellWidth_tab, Nat.mul_succ]
  omega

theorem expands_expand (m : Metrics) (col : Nat) (t : Text) :
    Expands m.tabWidth m.width col t (m.expand col t) := by
  induction t generalizing col with
  | nil => exact .nil col
  | cons c t ih =>
    by_cases hc : c = '\t'
    · subst hc
      have hmod := Nat.mod_lt col m.tabWidth_pos
      have hwidth := m.cellWidth_tab col
      rw [expand, if_pos rfl]
      exact .tab _ (by omega) (by omega) (m.dvd_add_cellWidth_tab col) (ih _)
    · have hwidth : m.cellWidth col c = m.width c := if_neg hc
      rw [expand, if_neg hc, hwidth]
      exact .char c hc (ih _)

theorem cellsFrom_eq_row {spans : List ColumnSpan} {col : Nat} {t : Text} (hstart : w.start ≤ col)
    (hstop : m.columnAfter col t < w.stop) : m.cellsFrom w col spans t = m.row spans col t := by
  induction t generalizing col with
  | nil => rfl
  | cons c t ih =>
    have hle := m.le_columnAfter (col + m.cellWidth col c) t
    rw [columnAfter] at hstop
    rw [cellsFrom_cons_of_fits hstart (by omega) (by omega), ih (by omega) hstop]
    rfl

theorem cells_covering (m : Metrics) (line : Text) (spans : List ColumnSpan) :
    m.cells line spans (.covering m line) = m.row spans 0 line :=
  cellsFrom_eq_row (Nat.le_refl 0) (Nat.lt_succ_self _)

end Metrics

namespace Listing

variable {l : Listing}

theorem rows_plain (hplain : l.coloring = .plain) (hwhole : l.columns = none) :
    l.rows = l.buffer.lines.map (l.highlighter.metrics.expand 0) := by
  have hrow (line : Nat) :
      l.row line = l.highlighter.metrics.expand 0 ((l.buffer.lines[line]?).getD []) := by
    rw [row, hplain, hwhole]
    dsimp only [Option.getD_none]
    rw [Coloring.paint_plain, Metrics.cells_covering, ← Metrics.flatMap_glyphs_row, Item.encodeAll,
      List.flatMap_map]
    rfl
  rw [rows, funext hrow]
  refine List.ext_getElem? fun n => ?_
  by_cases hn : n < l.buffer.lines.length
  · simp [hn]
  · simp [hn]

theorem expands_rows_plain (hplain : l.coloring = .plain) (hwhole : l.columns = none)
    (hvalid : l.settings.Valid) :
    List.Forall₂ (Expands l.settings.tabWidth l.width 0) l.buffer.lines l.rows := by
  have htabWidth : l.highlighter.metrics.tabWidth = l.settings.tabWidth :=
    Nat.max_eq_left hvalid.one_le_tabWidth
  rw [rows_plain hplain hwhole, List.forall₂_map_right_iff, List.forall₂_same, ← htabWidth]
  exact fun line _ => l.highlighter.metrics.expands_expand 0 line

end Listing

namespace CommandLine

variable {m : Type → Type} [Monad m] {fs : FileSystem m} {o : Options} {s : Settings}
  {args : List Text} {file content : Text}

/-- The settings that the options and the user's home give, where all of it can be read. -/
inductive Configures (fs : FileSystem m) (o : Options) : Settings → Prop
  | given {path document : Text} {s : Settings} : o.settingsPath = some path →
      fs.read path = pure (.ok document) →
      ({} : Settings).applyDocument (fs.document? document) = (s, none) →
      Configures fs o s
  | home {path document : Text} {s : Settings} : o.settingsPath = none →
      fs.settingsPath = some path → fs.isPresent path = pure true →
      fs.read path = pure (.ok document) →
      ({} : Settings).applyDocument (fs.document? document) = (s, none) →
      Configures fs o s
  | missing {path : Text} : o.settingsPath = none → fs.settingsPath = some path →
      fs.isPresent path = pure false → Configures fs o {}
  | homeless : o.settingsPath = none → fs.settingsPath = none → Configures fs o {}

theorem loadSettings_eq [LawfulMonad m] {path document : Text}
    (hread : fs.read path = pure (.ok document))
    (hs : ({} : Settings).applyDocument (fs.document? document) = (s, none)) :
    loadSettings fs path = pure (.ok s) := by
  rw [loadSettings, hread, pure_bind]
  simp only [hs]

theorem Configures.settings_eq [LawfulMonad m] (h : Configures fs o s) :
    settings fs o = pure (.ok s) := by
  cases h with
  | given hpath hread hs =>
    simp only [settings, hpath]
    exact loadSettings_eq hread hs
  | home hnone hpath hpresent hread hs =>
    simp only [settings, hnone, hpath, hpresent, pure_bind, if_true]
    exact loadSettings_eq hread hs
  | missing hnone hpath hpresent =>
    simp only [settings, hnone, hpath, hpresent, pure_bind, Bool.false_eq_true, if_false]
  | homeless hnone hpath => simp only [settings, hnone, hpath]

theorem valid_of_applyDocument {document : Option Toml.Entries}
    (h : ({} : Settings).applyDocument document = (s, none)) : s.Valid := by
  have hs : (({} : Settings).applyDocument document).1 = s := congrArg Prod.fst h
  rw [← hs]
  cases document with
  | none => exact Settings.valid_default
  | some es => exact Settings.valid_default.apply es

theorem Configures.valid (h : Configures fs o s) : s.Valid := by
  cases h with
  | given _ _ hs => exact valid_of_applyDocument hs
  | home _ _ _ _ hs => exact valid_of_applyDocument hs
  | missing => exact Settings.valid_default
  | homeless => exact Settings.valid_default

theorem flag?_eq_none (h : file.head? ≠ some '-') : flag? file = none := by
  have hdash : ∀ f ∈ flags, f.1.toList.head? = some '-' := by decide
  rw [flag?, Option.map_eq_none_iff, List.find?_eq_none]
  intro f hf heq
  exact h (of_decide_eq_true heq ▸ hdash f hf)

theorem parse_noColor (h : file.head? ≠ some '-') :
    parse {} ["--no-color".toList, file] =
      .ok (.list { color := some false, file := some file } file) := by
  have hreads : Reads {} ["--no-color".toList, file] { color := some false, file := some file } :=
    .noColor (by decide) (.file (flag?_eq_none h) h rfl (.nil _))
  exact hreads.parse_eq rfl

/-- Without colors and without ranges a run writes each line of the file with its tabs expanded
and a newline behind it, in the order of the file. A file without text is one empty line. The
columns of a character and the reader of documents may be any. -/
theorem run_plain [LawfulMonad m] (hargs : parse {} args = .ok (.list o file))
    (hcolor : o.color = some false) (hlines : o.lines = none) (hcolumns : o.columns = none)
    (hsettings : Configures fs o s) (hcontent : fs.read file = pure (.ok content)) :
    (∀ path : Text, path.head? ≠ some '-' → parse {} ["--no-color".toList, path] =
      .ok (.list { color := some false, file := some path } path)) ∧
    ∃ lines rows : List Text, content.LinesOf lines ∧
      List.Forall₂ (Expands s.tabWidth fs.width 0) (if lines = [] then [[]] else lines) rows ∧
      run fs args = pure { output := rows.flatMap (· ++ ['\n']) } := by
  have hplain : (shown fs o file s content).coloring = .plain := by
    rw [shown, hcolor]
    rfl
  refine ⟨fun path => parse_noColor, content.fileLines, (shown fs o file s content).rows,
    Text.linesOf_fileLines content, ?_, ?_⟩
  · exact Listing.expands_rows_plain hplain hcolumns hsettings.valid
  · rw [run_eq hargs hsettings.settings_eq hcontent, Listing.text_of_whole hlines]

def homeAndFile (home document file content : Text) : FileSystem Id where
  read path :=
    if path = home then .ok document else if path = file then .ok content else .error .notFound
  isPresent path := decide (path = home ∨ path = file)
  settingsPath := some home
  terminal := true

theorem run_plain_endings :
    let file : Text := ['a', '.', 'z', 'i', 'g']
    let document : Text := "tab-width = 3\n[keywords]\nType = [\"e\"]".toList
    let content : Text := ['/', '/', '世', '\t', 'e', '\u0301', '\r', '\n', '\n', '\r', '"', '\r']
    let fs := homeAndFile ['h'] document file content
    ∃ (s : Settings) (lines rows : List Text), ({} : Settings).applyText document = (s, none) ∧
      content.LinesOf lines ∧
      List.Forall₂ (Expands s.tabWidth charWidth 0) (if lines = [] then [[]] else lines) rows ∧
      run fs ["--no-color".toList, file] = ({ output := rows.flatMap (· ++ ['\n']) } : Outcome) ∧
      rows.flatMap (· ++ ['\n']) =
        ['/', '/', '世', ' ', ' ', 'e', '\u0301', '\n', '\n', '\r', '"', '\r', '\n'] := by
  intro file document content fs
  have herror : (({} : Settings).applyText document).2.isNone := by decide +kernel
  obtain ⟨s, hs⟩ : ∃ s, ({} : Settings).applyText document = (s, none) := by
    cases hs : ({} : Settings).applyText document with
    | mk s error =>
      rw [hs] at herror
      exact ⟨s, congrArg _ (Option.isNone_iff_eq_none.1 herror)⟩
  have hhome : fs.read ['h'] = pure (.ok document) := rfl
  have hcontent : fs.read file = pure (.ok content) := rfl
  have hconfigures : Configures fs { color := some false, file := some file } s :=
    .home rfl rfl rfl hhome hs
  have hargs : parse {} ["--no-color".toList, file] =
      .ok (.list { color := some false, file := some file } file) := parse_noColor (by decide)
  obtain ⟨-, lines, rows, hlines, hrows, hrun⟩ :=
    run_plain hargs rfl rfl rfl hconfigures hcontent
  refine ⟨s, lines, rows, hs, hlines, hrows, hrun, ?_⟩
  have houtput : (run fs ["--no-color".toList, file] : Outcome).output =
      ['/', '/', '世', ' ', ' ', 'e', '\u0301', '\n', '\n', '\r', '"', '\r', '\n'] := by
    decide +kernel
  exact (congrArg Outcome.output hrun).symm.trans houtput

end CommandLine

end Highlight
