import Highlight.Highlighter
import Highlight.Proofs.Lexicon.Recoloring
import Highlight.Proofs.Zig.Brackets

/-!
# Words added by settings

A document of settings never takes a word away: the further words are those from before and some
that the document adds, also where it stops at a value that does not fit (`keepsWords_applyText`).
So it gives Zig a larger table of keywords with the same rules, and that recolors only the words
which were added.
-/

namespace Highlight

namespace Language

variable {word : Text}

theorem addKeywords_append (l : Language) (words added : List (Text × Category)) :
    l.addKeywords (words ++ added) = (l.addKeywords words).addKeywords added :=
  List.foldl_append

theorem name_addKeywords (l : Language) (words : List (Text × Category)) :
    (l.addKeywords words).name = l.name := by
  unfold addKeywords
  induction words generalizing l with
  | nil => rfl
  | cons w words ih => exact ih (l.addKeyword w.1 w.2)

theorem get?_keywords_addKeywords (l : Language) {words : List (Text × Category)}
    (h : word ∉ words.map Prod.fst) :
    (l.addKeywords words).lexicon.keywords.get? word = l.lexicon.keywords.get? word := by
  unfold addKeywords
  induction words generalizing l with
  | nil => rfl
  | cons w words ih =>
    obtain ⟨hw, hwords⟩ := not_or.1 (mt List.mem_cons.2 h)
    refine (ih (l.addKeyword w.1 w.2) hwords).trans ?_
    rw [addKeyword, Table.get?_insert, if_neg (Ne.symm hw)]

end Language

namespace Settings

def KeepsWords (s s' : Settings) : Prop := s.extraKeywords <+: s'.extraKeywords

variable {s s' : Settings}

theorem KeepsWords.refl (s : Settings) : s.KeepsWords s := List.prefix_rfl

theorem KeepsWords.trans {s'' : Settings} (h : s.KeepsWords s') (h' : s'.KeepsWords s'') :
    s.KeepsWords s'' :=
  List.IsPrefix.trans h h'

theorem keepsWords_andThen {o : Outcome} {f : Settings → Outcome} (ho : s.KeepsWords o.1)
    (hf : ∀ s' : Settings, s'.KeepsWords (f s').1) : s.KeepsWords (o.andThen f).1 := by
  obtain ⟨s', error⟩ := o
  cases error with
  | none => exact ho.trans (hf s')
  | some e => exact ho

theorem keepsWords_setEnabled (es : Toml.Entries) (s : Settings) :
    s.KeepsWords (setEnabled es s).1 := by
  unfold setEnabled
  split <;> exact .refl s

theorem keepsWords_setFiletype (es : Toml.Entries) (s : Settings) :
    s.KeepsWords (setFiletype es s).1 := by
  unfold setFiletype
  split
  · exact .refl s
  · split <;> exact .refl s
  · exact .refl s

theorem keepsWords_setTabWidth (es : Toml.Entries) (s : Settings) :
    s.KeepsWords (setTabWidth es s).1 := by
  unfold setTabWidth
  split <;> exact .refl s

theorem keepsWords_addKeyword (s : Settings) (word : Text) (c : Category) :
    s.KeepsWords (s.addKeyword word c) :=
  List.prefix_append _ _

theorem keepsWords_addWords (name : Text) (c : Category) (vs : List Toml.Value) (s : Settings) :
    s.KeepsWords (addWords name c vs s).1 := by
  induction vs generalizing s with
  | nil => exact .refl s
  | cons v vs ih =>
    cases v with
    | string word => exact (s.keepsWords_addKeyword word c).trans (ih _)
    | _ => exact .refl s

theorem keepsWords_addCategories (es : Toml.Entries) (s : Settings) :
    s.KeepsWords (addCategories es s).1 := by
  induction es generalizing s with
  | nil => exact .refl s
  | cons e es ih =>
    obtain ⟨name, v⟩ := e
    unfold addCategories
    split
    · exact .refl s
    · exact keepsWords_andThen (keepsWords_addWords _ _ _ s) ih
    · exact .refl s

theorem keepsWords_addKeywords (es : Toml.Entries) (s : Settings) :
    s.KeepsWords (addKeywords es s).1 := by
  unfold addKeywords
  split
  · exact .refl s
  · exact keepsWords_addCategories _ s
  · exact .refl s

theorem keepsWords_apply (s : Settings) (es : Toml.Entries) : s.KeepsWords (s.apply es).1 := by
  refine keepsWords_andThen ?_ (keepsWords_addKeywords es)
  refine keepsWords_andThen ?_ (keepsWords_setTabWidth es)
  exact keepsWords_andThen (keepsWords_setEnabled es s) (keepsWords_setFiletype es)

theorem keepsWords_applyText (s : Settings) (document : Text) :
    s.KeepsWords (s.applyText document).1 := by
  rw [applyText]
  cases Toml.parse? document with
  | none => exact .refl s
  | some es => exact s.keepsWords_apply es

end Settings

namespace Highlighter

theorem resolve?_ofSettings (s : Settings) {filetype : Text}
    (h : filetype = Zig.name ∨ filetype = s.filetype) :
    (ofSettings s).resolve? filetype = some (Zig.language.addKeywords s.extraKeywords) := by
  have hname := Zig.language.name_addKeywords s.extraKeywords
  have hzig : Zig.language.name = Zig.name := rfl
  have hfiletype : (ofSettings s).filetypes.get? filetype = some Zig.name := by
    simp only [ofSettings, addFiletype, addLanguage, hname, hzig, Table.get?_insert]
    rcases h with rfl | rfl
    · simp only [if_true, ite_self]
    · simp only [if_true]
  rw [resolve?, registration?, hfiletype, Option.bind_some]
  simp only [ofSettings, addFiletype, addLanguage, hname, hzig, Table.get?_insert, if_true,
    Option.map_some]

/-- Keywords recolor their own words and nothing else. Two tables of keywords leave a line in the
same state, and a span that only one of them finds is a word that the other one knows differently.
So the words that a document of settings adds change neither the state in which any line of any
source begins and ends, nor any span of another word. -/
theorem keywords_recolor :
    (∀ (keywords others : Table Text Category) (rules : List Rule) (before : LineState) (t : Text),
      '\n' ∉ t → before.KnownTo rules →
      ∃ c d, (Lexicon.mk keywords rules).classify before t = .ok c ∧
        (Lexicon.mk others rules).classify before t = .ok d ∧ c.Recolors keywords others t d) ∧
    ∀ (s : Settings) (document : Text), ∃ added l l',
      (s.applyText document).1.extraKeywords = s.extraKeywords ++ added ∧
      (ofSettings s).resolve? Zig.name = some l ∧
      (ofSettings (s.applyText document).1).resolve? Zig.name = some l' ∧
      ∀ (source : List Text) (n : Nat) (t : Text), source[n]? = some t →
        ∃ r r', (l.records source)[n]? = some r ∧ (l'.records source)[n]? = some r' ∧
          r.before = r'.before ∧ r.after = r'.after ∧
          ∀ span : Span, span.text t ∉ added.map Prod.fst → (span ∈ r.spans ↔ span ∈ r'.spans) := by
  constructor
  · intro keywords others rules before t ht hbefore
    obtain ⟨c, hc⟩ := (Lexicon.mk keywords rules).exists_classify_eq_ok ht hbefore
    obtain ⟨d, hd, hrecolors⟩ := Lexicon.classify_recolors others hc
    exact ⟨c, d, hc, hd, hrecolors⟩
  · intro s document
    obtain ⟨added, hadded⟩ := s.keepsWords_applyText document
    refine ⟨added, _, _, hadded.symm, resolve?_ofSettings _ (.inl rfl),
      resolve?_ofSettings _ (.inl rfl), ?_⟩
    rw [← hadded, Language.addKeywords_append]
    intro source n t ht
    have hrules := ((Zig.language.addKeywords s.extraKeywords).rules_addKeywords added).symm
    obtain ⟨r, r', hr, hr', hbefore, hrecolors⟩ :=
      Language.getElem?_recordsFrom_recolors hrules .normal ht
    refine ⟨r, r', hr, hr', hbefore, hrecolors.after, fun span hspan => ?_⟩
    refine hrecolors.mem_iff fun word hword => ?_
    have htext : span.text t = word := by rw [Span.text, hword, Option.getD_some]
    rw [htext] at hspan
    exact (Language.get?_keywords_addKeywords _ hspan).symm

/-- The document adds a word that stands on the line, and stops at a value that is no word. -/
theorem keywords_recolor_stopped :
    let t : Text := ['*', '/', 'f', '(', 'x', ')', ' ', 'i', 'f', ' ', '/', '*']
    let words : Table Text Category := Table.insert ∅ ['x'] .type
    let document : Text := "[keywords]\nType = [\"x\", 1]".toList
    let settings : Settings := (({} : Settings).applyText document).1
    (∃ c d, (Lexicon.mk words Zig.rules).classify (.inside Zig.blockComment.id) t = .ok c ∧
      (Lexicon.mk Zig.keywords Zig.rules).classify (.inside Zig.blockComment.id) t = .ok d ∧
      c.Recolors words Zig.keywords t d) ∧
    settings.extraKeywords = [(['x'], .type)] ∧
    ∃ l l', (ofSettings {}).resolve? Zig.name = some l ∧
      (ofSettings settings).resolve? Zig.name = some l' ∧
      ∃ r r', (l.records [['/', '*'], t])[1]? = some r ∧
        (l'.records [['/', '*'], t])[1]? = some r' ∧ r.before = r'.before ∧ r.after = r'.after ∧
        (∀ span : Span, span.text t ∉ settings.extraKeywords.map Prod.fst →
          (span ∈ r.spans ↔ span ∈ r'.spans)) ∧
        r.spans = [⟨0, 2, .comment⟩, ⟨2, 3, .call⟩, ⟨7, 9, .controlFlow⟩, ⟨10, 12, .comment⟩] ∧
        r'.spans = [⟨0, 2, .comment⟩, ⟨2, 3, .call⟩, ⟨4, 5, .type⟩, ⟨7, 9, .controlFlow⟩,
          ⟨10, 12, .comment⟩] := by
  intro t words document settings
  obtain ⟨hline, hdocument⟩ := keywords_recolor
  have ht : '\n' ∉ t := by decide
  have hknown : (LineState.inside Zig.blockComment.id).KnownTo Zig.rules :=
    ⟨Zig.blockComment, by simp [Zig.rules], rfl⟩
  obtain ⟨added, l, l', hadded, hl, hl', hall⟩ := hdocument {} document
  have hwords : settings.extraKeywords = added := hadded.trans (List.nil_append added)
  have hextra : settings.extraKeywords = [(['x'], .type)] := by decide +kernel
  obtain ⟨r, r', hr, hr', hbefore, hafter, hsame⟩ := hall [['/', '*'], t] 1 t rfl
  have hspans : (Zig.language.records [['/', '*'], t])[1]?.map LineRecord.spans =
      some [⟨0, 2, .comment⟩, ⟨2, 3, .call⟩, ⟨7, 9, .controlFlow⟩, ⟨10, 12, .comment⟩] := by
    decide +kernel
  have hspans' : ((Zig.language.addKeywords [(['x'], .type)]).records
      [['/', '*'], t])[1]?.map LineRecord.spans =
        some [⟨0, 2, .comment⟩, ⟨2, 3, .call⟩, ⟨4, 5, .type⟩, ⟨7, 9, .controlFlow⟩,
          ⟨10, 12, .comment⟩] := by
    decide +kernel
  have hzig : Zig.language = l :=
    Option.some.inj ((resolve?_ofSettings {} (.inl rfl)).symm.trans hl)
  have hzig' : Zig.language.addKeywords settings.extraKeywords = l' :=
    Option.some.inj ((resolve?_ofSettings settings (.inl rfl)).symm.trans hl')
  rw [hzig, hr] at hspans
  rw [← hextra, hzig', hr'] at hspans'
  rw [← hwords] at hsame
  exact ⟨hline words Zig.keywords Zig.rules _ t ht hknown, hextra, l, l', hl, hl', r, r', hr, hr',
    hbefore, hafter, hsame, Option.some.inj hspans, Option.some.inj hspans'⟩

end Highlighter

end Highlight
