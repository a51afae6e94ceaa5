import Highlight.Toml.Value

/-!
# Documents in the making

While a document is read, each table remembers how it came about: by its own header, by
the header of a table inside it, by a dotted key, or in braces. From this it follows who
may still add to it. A header may open a table once, or one that so far was only implied;
a dotted key may add only to what dotted keys have made; what stands in braces is
complete.

At the end the draft is closed. A table whose first entry has the reserved key stands for
a date-time, and its other entries count for nothing; so the order of the entries matters
until then.
-/

namespace Highlight.Toml

inductive Origin
  | header
  | implied
  | dotted
  | braces
  deriving DecidableEq, Repr

inductive Node
  | value (v : Value)
  | array (ns : List Node)
  | table (origin : Origin) (entries : List (Text × Node))
  | tables (ts : List Node)

abbrev Draft := List (Text × Node)

namespace Draft

def find? (d : Draft) (key : Text) : Option Node :=
  (List.find? (fun e => e.1 = key) d).map Prod.snd

def erase (key : Text) (d : Draft) : Draft := d.filter fun e => e.1 ≠ key

def put (key : Text) (n : Node) : Draft → Draft
  | [] => [(key, n)]
  | e :: d => if e.1 = key then (key, n) :: d else e :: put key n d

/-- Changes the table at the end of a path, which is seen with its origin. Tables that are
missing on the way are made with the given origin. A dotted path does not enter tables
that have a header, and no path enters a value or a table in braces. -/
def alter? (made : Origin) (f : Origin → Draft → Option Draft) :
    List Text → Origin → Draft → Option Draft
  | [], origin, d => f origin d
  | key :: path, _, d =>
    match d.find? key with
    | none => do
      let inner ← alter? made f path made []
      return d.put key (.table made inner)
    | some (.value _) | some (.array _) => none
    | some (.table origin inner) => do
      if origin = .braces ∨ (made = .dotted ∧ origin = .header) then none
      let inner ← alter? made f path origin inner
      return d.put key (.table origin inner)
    | some (.tables (.table origin last :: earlier)) => do
      let last ← alter? made f path origin last
      return d.put key (.tables (.table origin last :: earlier))
    | some (.tables _) => none

/-- Adds a node under a new key. A key with dots adds only to tables made by dotted keys,
and a key without only to others. -/
def addKey? (path : List Text) (key : Text) (n : Node) (origin : Origin) (d : Draft) :
    Option Draft :=
  alter? .dotted (fun origin d =>
    if (origin == .dotted) == path.isEmpty then none
    else if (d.find? key).isSome then none
    else some (d ++ [(key, n)])) path origin d

def openTable? (path : List Text) (key : Text) (d : Draft) : Option Draft :=
  alter? .implied (fun _ d =>
    match d.find? key with
    | none => some (d.put key (.table .header []))
    | some (.table .implied inner) => some (d.erase key ++ [(key, .table .header inner)])
    | some _ => none) path .header d

def openNext? (path : List Text) (key : Text) (d : Draft) : Option Draft :=
  alter? .implied (fun _ d =>
    match d.find? key with
    | none => some (d.put key (.tables [.table .header []]))
    | some (.tables ts) => some (d.put key (.tables (.table .header [] :: ts)))
    | some _ => none) path .header d

def addAt? (header : List Text) (path : List Text) (key : Text) (n : Node) (d : Draft) :
    Option Draft :=
  alter? .implied (addKey? path key n) header .header d

def standsForDatetime (d : Draft) : Bool := d.head?.any fun e => e.1 = datetimeKey

def datetime? (d : Draft) : Option Datetime :=
  match d with
  | (_, .value (.string t)) :: _ => Datetime.ofText? t
  | _ => none

end Draft

mutual

def Node.close? : Node → Option Value
  | .value v => some v
  | .array ns => (closeAll? ns).map .array
  | .table _ d =>
    if Draft.standsForDatetime d then (Draft.datetime? d).map .datetime
    else (closeEntries? d).map fun es => .table (Entries.ofList es)
  | .tables ts => (closeAll? ts).map fun vs => .array vs.reverse

def closeAll? : List Node → Option (List Value)
  | [] => some []
  | n :: ns => do return (← n.close?) :: (← closeAll? ns)

def closeEntries? : List (Text × Node) → Option (List (Text × Value))
  | [] => some []
  | (key, n) :: es => do return (key, ← n.close?) :: (← closeEntries? es)

end

end Highlight.Toml
