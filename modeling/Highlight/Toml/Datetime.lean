import Highlight.Text

/-!
# Dates and times

A date, a time of day, or both, perhaps with an offset from universal time. Days are
checked against the month, a second may be a leap second, and of a fraction nine digits
count.
-/

namespace Highlight.Toml

structure Date where
  year : Nat
  month : Nat
  day : Nat
  deriving DecidableEq, Repr

structure Time where
  hour : Nat
  minute : Nat
  second : Nat
  nanosecond : Nat
  deriving DecidableEq, Repr

inductive Offset
  | zulu
  | minutes (n : Int)
  deriving DecidableEq, Repr

inductive Datetime
  | date (d : Date)
  | time (t : Time)
  | dateTime (d : Date) (t : Time) (offset : Option Offset)
  deriving DecidableEq, Repr

def isLeapYear (y : Nat) : Bool := y % 4 = 0 && (y % 100 ≠ 0 || y % 400 = 0)

def daysInMonth (year month : Nat) : Nat :=
  match month with
  | 2 => if isLeapYear year then 29 else 28
  | 4 | 6 | 9 | 11 => 30
  | _ => 31

def digitValue (c : Char) : Nat := c.toNat - '0'.toNat

def decimalValue (ds : Text) : Nat := ds.foldl (fun n c => 10 * n + digitValue c) 0

def digits? (n : Nat) (t : Text) : Option (Nat × Text) :=
  let ds := t.take n
  if ds.length = n ∧ ds.all Char.isDigit then some (decimalValue ds, t.drop n) else none

def within? (low high : Nat) (r : Option (Nat × Text)) : Option (Nat × Text) :=
  r.filter fun r => low ≤ r.1 && r.1 ≤ high

namespace Date

def read? (t : Text) : Option (Date × Text) := do
  let (year, t) ← digits? 4 t
  let (month, t) ← within? 1 12 (digits? 2 (← t.after? ['-']))
  let (day, t) ← within? 1 (daysInMonth year month) (digits? 2 (← t.after? ['-']))
  return (⟨year, month, day⟩, t)

end Date

namespace Time

def fraction? (t : Text) : Option (Nat × Text) :=
  let ds := t.takeWhile Char.isDigit
  let kept := ds.take 9
  if ds = [] then none
  else some (decimalValue kept * Nat.pow 10 (9 - kept.length), t.dropWhile Char.isDigit)

def read? (t : Text) : Option (Time × Text) := do
  let (hour, t) ← within? 0 23 (digits? 2 t)
  let (minute, t) ← within? 0 59 (digits? 2 (← t.after? [':']))
  let (second, t) ← within? 0 60 (digits? 2 (← t.after? [':']))
  match t with
  | '.' :: t =>
    let (nanosecond, t) ← fraction? t
    return (⟨hour, minute, second, nanosecond⟩, t)
  | t => return (⟨hour, minute, second, 0⟩, t)

end Time

namespace Offset

def read? : Text → Option (Offset × Text)
  | 'Z' :: t | 'z' :: t => some (zulu, t)
  | sign :: t =>
    if sign = '+' ∨ sign = '-' then do
      let (hours, t) ← within? 0 23 (digits? 2 t)
      let (mins, t) ← within? 0 59 (digits? 2 (← t.after? [':']))
      let n : Int := 60 * hours + mins
      return (minutes (if sign = '-' then -n else n), t)
    else none
  | [] => none

end Offset

namespace Datetime

def isDelimiter (c : Char) : Bool := c = 'T' || c = 't' || c = ' '

def timeOfDay? (d : Date) (t : Text) : Option Datetime := do
  let (clock, t) ← Time.read? t
  if t = [] then return dateTime d clock none
  let (offset, t) ← Offset.read? t
  if t = [] then return dateTime d clock (some offset) else none

def ofText? (t : Text) : Option Datetime :=
  match Date.read? t with
  | some (d, []) => some (date d)
  | some (d, c :: t) => if isDelimiter c then timeOfDay? d t else none
  | none =>
    match Time.read? t with
    | some (clock, []) => some (time clock)
    | _ => none

end Datetime

def padded (width n : Nat) : Text :=
  let ds := Nat.toDigits 10 n
  List.replicate (width - ds.length) '0' ++ ds

def Date.text (d : Date) : Text :=
  padded 4 d.year ++ '-' :: padded 2 d.month ++ '-' :: padded 2 d.day

def Time.text (t : Time) : Text :=
  padded 2 t.hour ++ ':' :: padded 2 t.minute ++ ':' :: padded 2 t.second ++
    if t.nanosecond = 0 then []
    else '.' :: ((padded 9 t.nanosecond).reverse.dropWhile (· = '0')).reverse

def Offset.text : Offset → Text
  | zulu => ['Z']
  | minutes n =>
    (if n < 0 then '-' else '+') :: padded 2 (n.natAbs / 60) ++ ':' :: padded 2 (n.natAbs % 60)

def Datetime.text : Datetime → Text
  | date d => d.text
  | time t => t.text
  | dateTime d t offset => d.text ++ 'T' :: t.text ++ (offset.map Offset.text).getD []

end Highlight.Toml
