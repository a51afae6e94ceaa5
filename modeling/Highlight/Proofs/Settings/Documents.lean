import Highlight.Proofs.Highlighter.AddedWords
import Highlight.Proofs.Toml.KeyOrder

/-!
# Documents of settings

A document is a list of requests: one for each of its settings and one for each word, in the order
in which they take effect, with an error in the place of a value that does not fit. Applying the
document performs the requests before the first error and stops there (`apply_eq_run`,
`exists_stopsAt_run`). There is an error exactly where the document has a fault that can be seen on
it (`isSome_apply_iff`), and settings keep their bounds under every request (`Valid.perform`).
-/

namespace Highlight

namespace Language

variable {word : Text}

theorem get?_keywords_addKeywords_last (l : Language) (before : List (Text × Category))
    (c : Category) {after : List (Text × Category)} (h : word ∉ after.map Prod.fst) :
    (l.addKeywords (before ++ (word, c) :: after)).lexicon.keywords.get? word = some c := by
  rw [addKeywords_append]
  have hword := ((l.addKeywords before).addKeyword word c).get?_keywords_addKeywords h
  refine Eq.trans hword ?_
  rw [addKeyword, Table.get?_insert, if_pos rfl]

end Language

theorem Category.ofName?_eq_none_iff {t : Text} :
    ofName? t = none ↔ t ≠ "Preprocessor".toList ∧ ∀ c : Category, t ≠ c.name.toList := by
  rw [Option.eq_none_iff_forall_ne_some]
  simp only [ne_eq, ofName?_eq_some_iff]
  constructor
  · intro h
    exact ⟨fun ht => h .preprocessorLike (.inr ⟨ht, rfl⟩), fun c ht => h c (.inl ht)⟩
  · rintro ⟨hshort, hname⟩ c (ht | ⟨ht, -⟩)
    · exact hname c ht
    · exact hshort ht

namespace Settings

structure Valid (s : Settings) : Prop where
  one_le_tabWidth : 1 ≤ s.tabWidth
  tabWidth_le : s.tabWidth ≤ 16
  filetype_ne_nil : s.filetype ≠ []

theorem valid_default : Valid {} := ⟨by decide, by decide, by decide⟩

inductive Request
  | enabled (b : Bool)
  | filetype (t : Text) (ne_nil : t ≠ [])
  | tabWidth (n : Int)
  | keyword (word : Text) (c : Category)

def Request.perform (s : Settings) : Request → Settings
  | .enabled b => { s with enabled := b }
  | .filetype t _ => { s with filetype := t }
  | .tabWidth n => { s with tabWidth := (max 1 (min n 16)).toNat }
  | .keyword word c => s.addKeyword word c

variable {s : Settings} {es : Toml.Entries}

theorem Valid.perform (h : s.Valid) (r : Request) : (r.perform s).Valid := by
  obtain ⟨hone, hsixteen, hfiletype⟩ := h
  cases r with
  | enabled b => exact ⟨hone, hsixteen, hfiletype⟩
  | filetype t ne_nil => exact ⟨hone, hsixteen, ne_nil⟩
  | tabWidth n =>
    refine ⟨?_, ?_, hfiletype⟩
    · change 1 ≤ (max 1 (min n 16)).toNat
      omega
    · change (max 1 (min n 16)).toNat ≤ 16
      omega
  | keyword word c => exact ⟨hone, hsixteen, hfiletype⟩

/-! ## The requests of a document -/

/-- A request of a document, or what is wrong in its place. -/
abbrev Asked := Except SettingsError Request

def askedEnabled : Toml.Value → Asked
  | .boolean b => .ok (.enabled b)
  | v => .error (.badValue "enabled".toList v)

def askedFiletype : Toml.Value → Asked
  | .string t =>
    if ht : t = [] then .error (.badValue "filetype".toList (.string t)) else .ok (.filetype t ht)
  | v => .error (.badValue "filetype".toList v)

def askedTabWidth : Toml.Value → Asked
  | .integer n => .ok (.tabWidth n)
  | v => .error (.badValue "tab-width".toList v)

def askedWord (name : Text) (c : Category) : Toml.Value → Asked
  | .string word => .ok (.keyword word c)
  | v => .error (.badValue ("keywords.".toList ++ name) v)

def askedCategory (e : Text × Toml.Value) : List Asked :=
  match Category.ofName? e.1, e.2 with
  | none, _ => [.error (.unknownCategory e.1)]
  | some c, .array vs => vs.map (askedWord e.1 c)
  | some _, v => [.error (.badValue ("keywords.".toList ++ e.1) v)]

def askedKeywords : Toml.Value → List Asked
  | .table entries => entries.flatMap askedCategory
  | v => [.error (.badValue "keywords".toList v)]

/-- The requests of a document: whether text is highlighted, the filetype, the tab width, then the
words, category by category in the order of the table and within a category in the order of its
array. -/
def requests (es : Toml.Entries) : List Asked :=
  (es.get? "enabled".toList).toList.map askedEnabled ++
    (es.get? "filetype".toList).toList.map askedFiletype ++
    (es.get? "tab-width".toList).toList.map askedTabWidth ++
    (es.get? "keywords".toList).toList.flatMap askedKeywords

/-- Requests that are performed up to the first error, or all if there is none. -/
inductive StopsAt : List Asked → List Request → Option SettingsError → Prop
  | none (done : List Request) : StopsAt (done.map .ok) done none
  | error (done : List Request) (e : SettingsError) (later : List Asked) :
    StopsAt (done.map .ok ++ .error e :: later) done (some e)

def run (s : Settings) : List Asked → Outcome
  | [] => (s, none)
  | .error e :: _ => (s, some e)
  | .ok r :: asked => run (r.perform s) asked

theorem run_append (asked more : List Asked) (s : Settings) :
    s.run (asked ++ more) = (s.run asked).andThen fun s' => s'.run more := by
  induction asked generalizing s with
  | nil => rfl
  | cons a asked ih =>
    cases a with
    | error e => rfl
    | ok r => exact ih (r.perform s)

theorem StopsAt.cons {asked : List Asked} {done : List Request} {error : Option SettingsError}
    (h : StopsAt asked done error) (r : Request) : StopsAt (.ok r :: asked) (r :: done) error := by
  cases h with
  | none => exact .none (r :: done)
  | error _ e later => exact .error (r :: done) e later

theorem exists_stopsAt_run (asked : List Asked) (s : Settings) :
    ∃ done, StopsAt asked done (s.run asked).2 ∧
      (s.run asked).1 = done.foldl Request.perform s := by
  induction asked generalizing s with
  | nil => exact ⟨[], .none [], rfl⟩
  | cons a asked ih =>
    cases a with
    | error e => exact ⟨[], .error [] e asked, rfl⟩
    | ok r =>
      obtain ⟨done, hstops, hs⟩ := ih (r.perform s)
      exact ⟨r :: done, hstops.cons r, hs⟩

theorem isSome_run_iff (asked : List Asked) (s : Settings) :
    (s.run asked).2.isSome ↔ ∃ e, Except.error e ∈ asked := by
  induction asked generalizing s with
  | nil => simp [run]
  | cons a asked ih =>
    cases a with
    | error e => exact iff_of_true rfl ⟨e, List.mem_cons_self⟩
    | ok r => simpa [run] using ih (r.perform s)

theorem Valid.run (h : s.Valid) (asked : List Asked) : (s.run asked).1.Valid := by
  induction asked generalizing s with
  | nil => exact h
  | cons a asked ih =>
    cases a with
    | error e => exact h
    | ok r => exact ih (h.perform r)

/-! ## Applying a document -/

theorem setEnabled_eq_run (es : Toml.Entries) (s : Settings) :
    setEnabled es s = s.run ((es.get? "enabled".toList).toList.map askedEnabled) := by
  unfold setEnabled
  cases es.get? "enabled".toList with
  | none => rfl
  | some v => cases v <;> rfl

theorem setFiletype_eq_run (es : Toml.Entries) (s : Settings) :
    setFiletype es s = s.run ((es.get? "filetype".toList).toList.map askedFiletype) := by
  unfold setFiletype
  cases es.get? "filetype".toList with
  | none => rfl
  | some v =>
    cases v with
    | string t =>
      by_cases ht : t = []
      · simp [askedFiletype, run, ht, bad]
      · simp [askedFiletype, run, ht, Request.perform]
    | _ => rfl

theorem setTabWidth_eq_run (es : Toml.Entries) (s : Settings) :
    setTabWidth es s = s.run ((es.get? "tab-width".toList).toList.map askedTabWidth) := by
  unfold setTabWidth
  cases es.get? "tab-width".toList with
  | none => rfl
  | some v => cases v <;> rfl

theorem addWords_eq_run (name : Text) (c : Category) (vs : List Toml.Value) (s : Settings) :
    addWords name c vs s = s.run (vs.map (askedWord name c)) := by
  induction vs generalizing s with
  | nil => rfl
  | cons v vs ih =>
    cases v with
    | string word => exact ih (s.addKeyword word c)
    | _ => rfl

theorem addCategories_eq_run (entries : Toml.Entries) (s : Settings) :
    addCategories entries s = s.run (entries.flatMap askedCategory) := by
  induction entries generalizing s with
  | nil => rfl
  | cons e entries ih =>
    obtain ⟨name, v⟩ := e
    rw [List.flatMap_cons, run_append, ← funext ih]
    unfold addCategories askedCategory
    cases Category.ofName? name with
    | none => rfl
    | some c =>
      cases v with
      | array vs => exact congrArg (Outcome.andThen · _) (addWords_eq_run name c vs s)
      | _ => rfl

theorem addKeywords_eq_run (es : Toml.Entries) (s : Settings) :
    addKeywords es s = s.run ((es.get? "keywords".toList).toList.flatMap askedKeywords) := by
  unfold addKeywords
  cases es.get? "keywords".toList with
  | none => rfl
  | some v =>
    rw [Option.toList_some, List.flatMap_singleton]
    cases v with
    | table entries => exact addCategories_eq_run entries s
    | _ => rfl

theorem apply_eq_run (s : Settings) (es : Toml.Entries) : s.apply es = s.run (requests es) := by
  simp only [requests, run_append, apply, setEnabled_eq_run, funext (setFiletype_eq_run es),
    funext (setTabWidth_eq_run es), funext (addKeywords_eq_run es)]

theorem Valid.apply (h : s.Valid) (es : Toml.Entries) : (s.apply es).1.Valid := by
  rw [apply_eq_run]
  exact h.run (requests es)

def applyAll (documents : List Toml.Entries) : Settings :=
  documents.foldl (fun s es => (s.apply es).1) {}

theorem valid_applyAll (documents : List Toml.Entries) : (applyAll documents).Valid := by
  unfold applyAll
  have hdefault := valid_default
  generalize ({} : Settings) = s at *
  induction documents generalizing s with
  | nil => exact hdefault
  | cons es documents ih => exact ih _ (hdefault.apply es)

/-! ## Faults -/

/-- What can be wrong with a document, seen on the document alone. -/
inductive Faulty (es : Toml.Entries) : Prop
  | enabled (v : Toml.Value) (hv : es.get? "enabled".toList = some v) (h : ∀ b, v ≠ .boolean b)
  | filetype (v : Toml.Value) (hv : es.get? "filetype".toList = some v) (h : ∀ t, v ≠ .string t)
  | emptyFiletype (hv : es.get? "filetype".toList = some (.string []))
  | tabWidth (v : Toml.Value) (hv : es.get? "tab-width".toList = some v) (h : ∀ n, v ≠ .integer n)
  | keywords (v : Toml.Value) (hv : es.get? "keywords".toList = some v) (h : ∀ es, v ≠ .table es)
  | category (entries : Toml.Entries) (hv : es.get? "keywords".toList = some (.table entries))
    (e : Text × Toml.Value) (he : e ∈ entries) (hshort : e.1 ≠ "Preprocessor".toList)
    (h : ∀ c : Category, e.1 ≠ c.name.toList)
  | words (entries : Toml.Entries) (hv : es.get? "keywords".toList = some (.table entries))
    (e : Text × Toml.Value) (he : e ∈ entries)
    (h : ∀ words : List Text, e.2 ≠ .array (words.map .string))

theorem askedEnabled_eq_error_iff {v : Toml.Value} :
    (∃ e, askedEnabled v = .error e) ↔ ∀ b, v ≠ .boolean b := by
  cases v <;> simp [askedEnabled]

theorem askedFiletype_eq_error_iff {v : Toml.Value} :
    (∃ e, askedFiletype v = .error e) ↔ v = .string [] ∨ ∀ t, v ≠ .string t := by
  cases v with
  | string t => by_cases ht : t = [] <;> simp [askedFiletype, ht]
  | _ => simp [askedFiletype]

theorem askedTabWidth_eq_error_iff {v : Toml.Value} :
    (∃ e, askedTabWidth v = .error e) ↔ ∀ n, v ≠ .integer n := by
  cases v <;> simp [askedTabWidth]

theorem exists_error_mem_words_iff {name : Text} {c : Category} {vs : List Toml.Value} :
    (∃ e, Except.error e ∈ vs.map (askedWord name c)) ↔
      ∀ words : List Text, vs ≠ words.map .string := by
  induction vs with
  | nil => exact iff_of_false nofun fun h => h [] rfl
  | cons v vs ih =>
    cases v with
    | string word =>
      simp only [List.map_cons, askedWord, List.mem_cons, reduceCtorEq, false_or, ih]
      constructor
      · intro h words heq
        cases words with
        | nil => cases heq
        | cons w words => exact h words (List.cons.inj heq).2
      · intro h words heq
        exact h (word :: words) (congrArg _ heq)
    | _ =>
      refine iff_of_true ⟨_, List.mem_cons_self⟩ fun words heq => ?_
      cases words <;> cases heq

theorem exists_error_mem_category_iff {e : Text × Toml.Value} :
    (∃ error, Except.error error ∈ askedCategory e) ↔
      Category.ofName? e.1 = none ∨ ∀ words : List Text, e.2 ≠ .array (words.map .string) := by
  obtain ⟨name, v⟩ := e
  unfold askedCategory
  cases Category.ofName? name with
  | none => simp
  | some c =>
    cases v with
    | array vs => simpa using exists_error_mem_words_iff
    | _ => simp

theorem mem_requests {a : Asked} :
    a ∈ requests es ↔
      (∃ v, es.get? "enabled".toList = some v ∧ askedEnabled v = a) ∨
      (∃ v, es.get? "filetype".toList = some v ∧ askedFiletype v = a) ∨
      (∃ v, es.get? "tab-width".toList = some v ∧ askedTabWidth v = a) ∨
      ∃ v, es.get? "keywords".toList = some v ∧ a ∈ askedKeywords v := by
  simp only [requests, List.mem_append, List.mem_map, List.mem_flatMap, Option.mem_toList,
    or_assoc]

theorem faulty_of_error_mem {e : SettingsError} (h : Except.error e ∈ requests es) :
    Faulty es := by
  rcases mem_requests.1 h with ⟨v, hv, h⟩ | ⟨v, hv, h⟩ | ⟨v, hv, h⟩ | ⟨v, hv, h⟩
  · exact .enabled v hv (askedEnabled_eq_error_iff.1 ⟨e, h⟩)
  · rcases askedFiletype_eq_error_iff.1 ⟨e, h⟩ with rfl | h
    · exact .emptyFiletype hv
    · exact .filetype v hv h
  · exact .tabWidth v hv (askedTabWidth_eq_error_iff.1 ⟨e, h⟩)
  · cases v with
    | table entries =>
      obtain ⟨entry, hentry, h⟩ := List.mem_flatMap.1 h
      rcases exists_error_mem_category_iff.1 ⟨e, h⟩ with hname | hwords
      · obtain ⟨hshort, hname⟩ := Category.ofName?_eq_none_iff.1 hname
        exact .category entries hv entry hentry hshort hname
      · exact .words entries hv entry hentry hwords
    | _ => exact .keywords _ hv fun _ => nofun

theorem Faulty.exists_error_mem (h : Faulty es) : ∃ e, Except.error e ∈ requests es := by
  simp only [mem_requests]
  cases h with
  | enabled v hv h =>
    obtain ⟨e, he⟩ := askedEnabled_eq_error_iff.2 h
    exact ⟨e, .inl ⟨v, hv, he⟩⟩
  | filetype v hv h =>
    obtain ⟨e, he⟩ := askedFiletype_eq_error_iff.2 (.inr h)
    exact ⟨e, .inr (.inl ⟨v, hv, he⟩)⟩
  | emptyFiletype hv =>
    obtain ⟨e, he⟩ := askedFiletype_eq_error_iff.2 (.inl rfl)
    exact ⟨e, .inr (.inl ⟨_, hv, he⟩)⟩
  | tabWidth v hv h =>
    obtain ⟨e, he⟩ := askedTabWidth_eq_error_iff.2 h
    exact ⟨e, .inr (.inr (.inl ⟨v, hv, he⟩))⟩
  | keywords v hv h =>
    refine ⟨.badValue "keywords".toList v, .inr (.inr (.inr ⟨v, hv, ?_⟩))⟩
    cases v with
    | table entries => exact (h entries rfl).elim
    | _ => exact List.mem_singleton_self _
  | category entries hv entry hentry hshort hname =>
    have hname := Category.ofName?_eq_none_iff.2 ⟨hshort, hname⟩
    obtain ⟨e, he⟩ := exists_error_mem_category_iff.2 (.inl hname)
    exact ⟨e, .inr (.inr (.inr ⟨_, hv, List.mem_flatMap.2 ⟨entry, hentry, he⟩⟩))⟩
  | words entries hv entry hentry h =>
    obtain ⟨e, he⟩ := exists_error_mem_category_iff.2 (.inr h)
    exact ⟨e, .inr (.inr (.inr ⟨_, hv, List.mem_flatMap.2 ⟨entry, hentry, he⟩⟩))⟩

theorem isSome_apply_iff (s : Settings) (es : Toml.Entries) :
    (s.apply es).2.isSome ↔ Faulty es := by
  rw [apply_eq_run, isSome_run_iff]
  exact ⟨fun ⟨_, h⟩ => faulty_of_error_mem h, Faulty.exists_error_mem⟩

/-- Documents keep settings within their bounds, whether they fail or not. A document never takes a
word away, fails exactly if it has a fault, and then performs the requests before the first fault
and none behind it. The tables of a document that was read list their keys in the order of the
bytes. The Zig of the highlighter that is made of the settings gives each word the category under
which it was added last, and the one that it has by itself if it was not added. -/
theorem apply_after_documents :
    (∀ (text : Text) (es : Toml.Entries), Toml.parse? text = some es → es.KeyOrdered ∧
      ∀ key (inner : Toml.Entries), es.get? key = some (.table inner) → inner.KeyOrdered) ∧
    ∀ (documents : List Toml.Entries) (es : Toml.Entries),
      let s := applyAll documents
      let s' := (s.apply es).1
      s'.Valid ∧ s.extraKeywords <+: s'.extraKeywords ∧ ((s.apply es).2.isSome ↔ Faulty es) ∧
      (∃ done, StopsAt (requests es) done (s.apply es).2 ∧ s' = done.foldl Request.perform s) ∧
      ∀ filetype, filetype = Zig.name ∨ filetype = s'.filetype →
        ∃ l, (Highlighter.ofSettings s').resolve? filetype = some l ∧
          (∀ word before c after, s'.extraKeywords = before ++ (word, c) :: after →
            word ∉ after.map Prod.fst → l.lexicon.keywords.get? word = some c) ∧
          ∀ word, word ∉ s'.extraKeywords.map Prod.fst →
            l.lexicon.keywords.get? word = Zig.keywords.get? word := by
  constructor
  · exact fun text es => Toml.keyOrdered_of_parse?
  · intro documents es s s'
    have hvalid := (valid_applyAll documents).apply es
    refine ⟨hvalid, keepsWords_apply s es, isSome_apply_iff s es, ?_, ?_⟩
    · have hrun : s.apply es = s.run (requests es) := apply_eq_run s es
      rw [show s' = (s.apply es).1 from rfl, hrun]
      exact exists_stopsAt_run (requests es) s
    · intro filetype hfiletype
      refine ⟨_, Highlighter.resolve?_ofSettings s' hfiletype, ?_, ?_⟩
      · intro word before c after heq hafter
        rw [heq]
        exact Zig.language.get?_keywords_addKeywords_last before c hafter
      · intro word hword
        exact Zig.language.get?_keywords_addKeywords hword

theorem apply_after_documents_stopped :
    let types := Toml.Value.array [.string ['f', 'n'], .string ['f']]
    let first : Toml.Entries :=
      [("keywords".toList, .table [("Type".toList, types)]), ("tab-width".toList, .integer 99)]
    let second : Text := "[keywords]\nType = [\"if\"]\nConstant = [\"fn\", 1]".toList
    ∃ es : Toml.Entries, Toml.parse? second = some es ∧ es.KeyOrdered ∧
      let s := ((applyAll [first]).apply es).1
      s.Valid ∧ Faulty es ∧
      s.extraKeywords = [(['f', 'n'], .type), (['f'], .type), (['f', 'n'], .constant)] ∧
      ∃ l, (Highlighter.ofSettings s).resolve? Zig.name = some l ∧
        l.lexicon.keywords.get? ['f', 'n'] = some .constant ∧
        l.lexicon.keywords.get? ['i', 'f'] = Zig.keywords.get? ['i', 'f'] := by
  intro types first second
  obtain ⟨hordered, hall⟩ := apply_after_documents
  have hread : (Toml.parse? second).any (fun es =>
      ((applyAll [first]).apply es).2.isSome &&
        ((applyAll [first]).apply es).1.extraKeywords =
          [(['f', 'n'], .type), (['f'], .type), (['f', 'n'], .constant)]) = true := by
    decide +kernel
  obtain ⟨es, hparse, hes⟩ := (Option.any_eq_true _ _).1 hread
  simp only [Bool.and_eq_true, decide_eq_true_eq] at hes
  obtain ⟨herror, hwords⟩ := hes
  obtain ⟨hvalid, -, hfaulty, -, hzig⟩ := hall [first] es
  obtain ⟨l, hl, hadded, hother⟩ := hzig Zig.name (.inl rfl)
  rw [hwords] at hadded hother
  exact ⟨es, hparse, (hordered second es hparse).1, hvalid, hfaulty.1 herror, hwords, l, hl,
    hadded _ [_, _] _ [] rfl nofun, hother _ (by decide)⟩

end Settings

end Highlight
