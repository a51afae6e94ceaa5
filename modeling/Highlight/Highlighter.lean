import Highlight.Buffer
import Highlight.Display.CachedLine
import Highlight.Settings
import Highlight.Text.Lowercase

/-!
# The highlighter

A highlighter knows languages by name, by the extensions of their files and by the
filetypes of buffers, and keeps a line cache for each buffer that it has drawn. Each
registration of a language gets a stamp of its own, and a cache is used only with the
registration that it was made for. Buffers that are no files, or have no known filetype,
are passed over.
-/

namespace Highlight

structure Registration where
  stamp : Nat
  language : Language

structure BufferCache where
  stamp : Nat
  cache : LineCache

structure Highlighter where
  languages : Table Text Registration := ∅
  extensions : Table Text Text := ∅
  filetypes : Table Text Text := ∅
  caches : Table Nat BufferCache := ∅
  metrics : Metrics := .ofTabWidth 8
  enabled : Bool := true
  redraw : Bool := true
  nextStamp : Nat := 0

namespace Highlighter

/-- A language answers to its own name as a filetype, and takes the place of the language
of that name with all its caches. -/
def addLanguage (h : Highlighter) (l : Language) : Highlighter :=
  { h with
    extensions := h.extensions.insertAll (l.extensions.map fun e => (e.lowercase, l.name))
    filetypes := h.filetypes.insert l.name l.name
    caches := h.caches.filter fun _ c => c.cache.language.name ≠ l.name
    languages := h.languages.insert l.name ⟨h.nextStamp, l⟩
    redraw := true
    nextStamp := h.nextStamp + 1 }

def addFiletype (h : Highlighter) (filetype language : Text) : Highlighter :=
  { h with filetypes := h.filetypes.insert filetype language }

def standard : Highlighter := addLanguage {} Zig.language

instance : Inhabited Highlighter := ⟨standard⟩

def ofSettings (s : Settings) (width : Char → Nat := charWidth) : Highlighter :=
  { standard with enabled := s.enabled, metrics := .ofTabWidth s.tabWidth width }
    |>.addLanguage (Zig.language.addKeywords s.extraKeywords)
    |>.addFiletype s.filetype Zig.name

def detect? (h : Highlighter) (path : Text) : Option Text :=
  (Path.extension? path).bind fun e => h.extensions.get? e.lowercase

def registration? (h : Highlighter) (filetype : Text) : Option Registration :=
  (h.filetypes.get? filetype).bind h.languages.get?

def resolve? (h : Highlighter) (filetype : Text) : Option Language :=
  (h.registration? filetype).map Registration.language

def languageNames (h : Highlighter) : List Text := Text.sort h.languages.keys

def cache? (h : Highlighter) (id : Nat) : Option LineCache :=
  (h.caches.get? id).map BufferCache.cache

def removeCache (h : Highlighter) (id : Nat) : Highlighter :=
  { h with caches := h.caches.erase id }

/-- Switching off empties the caches, since they do not hear of edits any more. -/
def toggle (h : Highlighter) : Highlighter :=
  { h with
    enabled := !h.enabled
    caches :=
      if h.enabled then h.caches.mapValues fun c => { c with cache := c.cache.invalidateAll }
      else h.caches
    redraw := true }

def unload (h : Highlighter) : Highlighter :=
  { h with caches := ∅, enabled := false, redraw := true }

def takeRedraw (h : Highlighter) : Bool × Highlighter := (h.redraw, { h with redraw := false })

def eligible? (h : Highlighter) (b : Buffer) : Option Registration :=
  if h.enabled ∧ b.kind = .file then b.filetype.bind h.registration? else none

def cacheFor (h : Highlighter) (id : Nat) (r : Registration) : BufferCache :=
  match h.caches.get? id with
  | some c => if c.stamp = r.stamp then c else ⟨r.stamp, { language := r.language }⟩
  | none => ⟨r.stamp, { language := r.language }⟩

/-- Uses the cache of a buffer that is highlighted, and does nothing for any other. -/
def withCache {α : Type} (h : Highlighter) (id : Nat) (b : Option Buffer)
    (use : Buffer → LineCache → α × LineCache) : Option α × Highlighter :=
  match b with
  | none => (none, h)
  | some b =>
    match h.eligible? b with
    | none => (none, h)
    | some r =>
      let c := h.cacheFor id r
      let (a, cache) := use b c.cache
      (some a, { h with caches := h.caches.insert id { c with cache := cache } })

def prepare (h : Highlighter) (id : Nat) (b : Option Buffer) (start stop : Nat) : Highlighter :=
  (h.withCache id b fun b c =>
    let last := min stop b.lines.length
    ((), if start < last then (c.spans b.lines (last - 1)).2 else c)).2

def draw (h : Highlighter) (id : Nat) (b : Option Buffer) (line : Nat) (w : Window) :
    List ColumnSpan × Highlighter :=
  let (spans, drawn) := h.withCache id b fun b c =>
    match c.spans b.lines line with
    | (.error _, c) => ([], c)
    | (.ok _, c) => (((c.columnSpans h.metrics b.lines line w).toOption).getD [], c)
  (spans.getD [], drawn)

def announce (h : Highlighter) (id : Nat) (b : Option Buffer) (e : LineEdit) : Highlighter :=
  (h.withCache id b fun b c => ((), (c.announce b.lines e).2)).2

def report (h : Highlighter) (id : Nat) (b : Option Buffer) (e : LineEdit) : Highlighter :=
  (h.withCache id b fun b c => ((), (c.report b.lines e).2)).2

def hooks (id : Nat) : EditHooks Highlighter where
  before b e h := h.announce id (some b) e
  after b e h := h.report id (some b) e

end Highlighter

end Highlight
