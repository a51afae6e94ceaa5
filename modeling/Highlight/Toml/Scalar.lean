import Highlight.Toml.Value

/-!
# Numbers, booleans and date-times

Values that are written without quotes or brackets. Underscores may stand between the
digits of a number. Integers have 64 bits and decimal ones no zeros in front; a float has
a fraction or an exponent, and one too great for the format is refused unless it is
negative.
-/

namespace Highlight.Toml.Scalar

def ungroup? (isDigit : Char → Bool) : Text → Option Text
  | [] => none
  | [c] => if isDigit c then some [c] else none
  | c :: d :: t =>
    if !isDigit c then none
    else if d = '_' then (ungroup? isDigit t).map (c :: ·)
    else (ungroup? isDigit (d :: t)).map (c :: ·)

def splitSign : Text → Bool × Text
  | '+' :: t => (false, t)
  | '-' :: t => (true, t)
  | t => (false, t)

def decimalDigits? (t : Text) : Option Text :=
  match t with
  | '0' :: _ :: _ => none
  | t => ungroup? Char.isDigit t

def inRange? (n : Int) : Option Int :=
  if -0x8000000000000000 ≤ n ∧ n ≤ 0x7FFFFFFFFFFFFFFF then some n else none

def decimal? (t : Text) : Option Int := do
  let (negative, t) := splitSign t
  let n : Int := decimalValue (← decimalDigits? t)
  inRange? (if negative then -n else n)

def digitOf (c : Char) : Nat :=
  if c.isDigit then digitValue c else if 'a' ≤ c then 10 + c.toNat - 'a'.toNat
  else 10 + c.toNat - 'A'.toNat

def isHexDigit (c : Char) : Bool := c.isDigit || ('a' ≤ c && c ≤ 'f') || ('A' ≤ c && c ≤ 'F')

def isOctalDigit (c : Char) : Bool := '0' ≤ c && c ≤ '7'

def isBinaryDigit (c : Char) : Bool := c = '0' || c = '1'

def inBase? (base : Nat) (isDigit : Char → Bool) (t : Text) : Option Int := do
  let n := (← ungroup? isDigit t).foldl (fun n c => base * n + digitOf c) 0
  inRange? n

def integer? : Text → Option Int
  | '0' :: 'x' :: t => inBase? 16 isHexDigit t
  | '0' :: 'o' :: t => inBase? 8 isOctalDigit t
  | '0' :: 'b' :: t => inBase? 2 isBinaryDigit t
  | t => decimal? t

def isExponentMark (c : Char) : Bool := c = 'e' || c = 'E'

def exponent? (t : Text) : Option Int := do
  let (negative, t) := splitSign t
  let n : Int := decimalValue (← ungroup? Char.isDigit t)
  return if negative then -n else n

def finite? (t : Text) : Option Binary64 := do
  let (negative, t) := splitSign t
  let whole := t.takeWhile fun c => c ≠ '.' && !isExponentMark c
  let rest := t.drop whole.length
  let whole ← decimalDigits? whole
  let (fraction, rest) ← match rest with
    | '.' :: rest =>
      let fraction := rest.takeWhile fun c => !isExponentMark c
      (ungroup? Char.isDigit fraction).map (·, rest.drop fraction.length)
    | [] => none
    | rest => some ([], rest)
  let exponent ← match rest with
    | [] => some 0
    | _ :: digits => exponent? digits
  let x := Binary64.ofDecimal negative (decimalValue (whole ++ fraction))
    (exponent - fraction.length)
  if x = .infinity false then none else some x

def special? (t : Text) : Option Binary64 :=
  let (negative, t) := splitSign t
  if t = ['i', 'n', 'f'] then some (.infinity negative)
  else if t = ['n', 'a', 'n'] then some .nan
  else none

def boolean? (t : Text) : Option Bool :=
  if t = ['t', 'r', 'u', 'e'] then some true
  else if t = ['f', 'a', 'l', 's', 'e'] then some false
  else none

def ofText? (t : Text) : Option Value :=
  ((boolean? t).map Value.boolean).or <|
  ((Datetime.ofText? t).map Value.datetime).or <|
  ((integer? t).map Value.integer).or <|
  ((special? t).map Value.float).or <|
  (finite? t).map Value.float

def isPart (c : Char) : Bool :=
  c.isAlphanum || c = '+' || c = '-' || c = '_' || c = '.' || c = ':'

/-- Reads a value up to the first character that is no part of one. A date with a blank and
a digit behind it goes on with a time. -/
def read? (t : Text) : Option (Value × Text) := do
  let first := t.takeWhile isPart
  let rest := t.drop first.length
  let (written, rest) :=
    match Date.read? first, rest with
    | some (_, []), ' ' :: more =>
      if more.head?.any Char.isDigit then
        (first ++ ' ' :: more.takeWhile isPart, more.dropWhile isPart)
      else (first, rest)
    | _, _ => (first, rest)
  return (← ofText? written, rest)

end Highlight.Toml.Scalar
