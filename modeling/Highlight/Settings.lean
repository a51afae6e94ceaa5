import Highlight.Toml.Printer
import Highlight.Toml.Reader
import Highlight.Zig

/-!
# Settings

What a user can choose: whether text is highlighted, the filetype of Zig buffers, the tab
width, and further words. A document of settings takes effect key by key, and at a value
that does not fit it stops; what came before stays in effect.
-/

namespace Highlight

structure Settings where
  enabled : Bool := true
  filetype : Text := Zig.name
  tabWidth : Nat := 8
  extraKeywords : List (Text × Category) := []
  deriving DecidableEq, Repr

inductive SettingsError
  | notToml
  | badValue (key : Text) (value : Toml.Value)
  | unknownCategory (name : Text)

namespace SettingsError

def reason : SettingsError → String
  | notToml => "TOML parse error"
  | badValue key value =>
    "invalid value for `" ++ String.ofList key ++ "`: " ++ String.ofList value.text
  | unknownCategory name => "unknown highlight category `" ++ String.ofList name ++ "`"

def message (e : SettingsError) : String := "Config error: " ++ e.reason

end SettingsError

namespace Settings

/-- Settings with a step that may fail: the settings reached, and the error if there is
one. -/
abbrev Outcome := Settings × Option SettingsError

def Outcome.andThen (o : Outcome) (f : Settings → Outcome) : Outcome :=
  match o with
  | (s, none) => f s
  | o => o

def bad (s : Settings) (key : String) (v : Toml.Value) : Outcome :=
  (s, some (.badValue key.toList v))

def setEnabled (es : Toml.Entries) (s : Settings) : Outcome :=
  match es.get? "enabled".toList with
  | none => (s, none)
  | some (.boolean b) => ({ s with enabled := b }, none)
  | some v => s.bad "enabled" v

def setFiletype (es : Toml.Entries) (s : Settings) : Outcome :=
  match es.get? "filetype".toList with
  | none => (s, none)
  | some (.string t) =>
    if t = [] then s.bad "filetype" (.string t) else ({ s with filetype := t }, none)
  | some v => s.bad "filetype" v

def setTabWidth (es : Toml.Entries) (s : Settings) : Outcome :=
  match es.get? "tab-width".toList with
  | none => (s, none)
  | some (.integer n) => ({ s with tabWidth := (max 1 (min n 16)).toNat }, none)
  | some v => s.bad "tab-width" v

def addKeyword (s : Settings) (word : Text) (c : Category) : Settings :=
  { s with extraKeywords := s.extraKeywords ++ [(word, c)] }

def addWords (name : Text) (c : Category) : List Toml.Value → Settings → Outcome
  | [], s => (s, none)
  | .string word :: vs, s => addWords name c vs (s.addKeyword word c)
  | v :: _, s => (s, some (.badValue ("keywords.".toList ++ name) v))

def addCategories : Toml.Entries → Settings → Outcome
  | [], s => (s, none)
  | (name, v) :: es, s =>
    match Category.ofName? name, v with
    | none, _ => (s, some (.unknownCategory name))
    | some c, .array vs => (addWords name c vs s).andThen (addCategories es)
    | some _, v => (s, some (.badValue ("keywords.".toList ++ name) v))

def addKeywords (es : Toml.Entries) (s : Settings) : Outcome :=
  match es.get? "keywords".toList with
  | none => (s, none)
  | some (.table entries) => addCategories entries s
  | some v => s.bad "keywords" v

def apply (s : Settings) (es : Toml.Entries) : Outcome :=
  (setEnabled es s).andThen (setFiletype es)
    |>.andThen (setTabWidth es)
    |>.andThen (addKeywords es)

def applyDocument (s : Settings) : Option Toml.Entries → Outcome
  | none => (s, some .notToml)
  | some es => s.apply es

def applyText (s : Settings) (t : Text) : Outcome := s.applyDocument (Toml.parse? t)

end Settings

end Highlight
