import Highlight.Toml.Binary64
import Highlight.Toml.Datetime

/-!
# Values of TOML documents

Tables hold their entries in the order of the keys. Where a date-time takes the form of a
table, it is a table with one reserved key.
-/

namespace Highlight.Toml

inductive Value
  | string (t : Text)
  | integer (n : Int)
  | float (x : Binary64)
  | boolean (b : Bool)
  | datetime (d : Datetime)
  | array (vs : List Value)
  | table (entries : List (Text × Value))

/-- The entries of a table, each key once and in the order of the keys. -/
abbrev Entries := List (Text × Value)

namespace Entries

def get? (es : Entries) (key : Text) : Option Value :=
  (es.find? fun e => e.1 = key).map Prod.snd

def insertSorted (e : Text × Value) : Entries → Entries
  | [] => [e]
  | f :: es => if Text.le e.1 f.1 then e :: f :: es else f :: insertSorted e es

def ofList (es : List (Text × Value)) : Entries := es.foldr insertSorted []

end Entries

def datetimeKey : Text := "$__toml_private_datetime".toList

end Highlight.Toml
