import Highlight.Text

/-!
# Binary floating-point numbers

Numbers of the 64-bit binary format as exact values: a finite one is its mantissa times a
power of two. Decimal numbers are rounded to the nearest, and of two nearest to the one
with an even mantissa. A number is written with the fewest digits that round to it, in
positional notation.
-/

namespace Highlight.Toml

inductive Binary64
  | nan
  | infinity (negative : Bool)
  | finite (negative : Bool) (mantissa : Nat) (exponent : Int)
  deriving DecidableEq, Repr

namespace Binary64

def minExponent : Int := -1074

def maxExponent : Int := 971

def scale (num den : Nat) (q : Int) : Nat × Nat :=
  if 0 ≤ q then (num, den * Nat.pow 2 q.toNat) else (num * Nat.pow 2 (-q).toNat, den)

def roundHalfEven (num den : Nat) : Nat :=
  let low := num / den
  let twice := 2 * (num % den)
  if den < twice ∨ (twice = den ∧ low % 2 = 1) then low + 1 else low

def binade (num den : Nat) : Int :=
  let e : Int := (num.log2 : Int) - den.log2
  let (n, d) := scale num den e
  if n < d then e - 1 else e

def ofQuotient (negative : Bool) (num den : Nat) : Binary64 :=
  let q := max (binade num den - 52) minExponent
  let (n, d) := scale num den q
  let m := roundHalfEven n d
  let (m, q) := if m = Nat.pow 2 53 then (Nat.pow 2 52, q + 1) else (m, q)
  if maxExponent < q then infinity negative else finite negative m q

/-- The number nearest to `digits` times a power of ten. Numbers with far more digits than
the format can tell apart need no arithmetic. -/
def ofDecimal (negative : Bool) (digits : Nat) (exponent : Int) : Binary64 :=
  let magnitude := ((Nat.toDigits 10 digits).length : Int) + exponent
  if digits = 0 ∨ magnitude < -330 then finite negative 0 minExponent
  else if 310 < magnitude then infinity negative
  else if 0 ≤ exponent then ofQuotient negative (digits * Nat.pow 10 exponent.toNat) 1
  else ofQuotient negative digits (Nat.pow 10 (-exponent).toNat)

structure Decimal where
  digits : Nat
  exponent : Int
  deriving DecidableEq, Repr

/-- The multiple of a power of ten that is nearest to a positive number, if it rounds to
the number. Of two multiples equally near the greater one is taken. Everything is measured
in quarters of the last place of the mantissa. -/
def nearestMultiple? (mantissa : Nat) (exponent p : Int) : Option Decimal :=
  let ten := Nat.pow 10 p.natAbs
  let two := Nat.pow 2 (exponent - 2).natAbs
  let a := (if 0 ≤ p then ten else 1) * (if 0 ≤ exponent - 2 then 1 else two)
  let b := (if 0 ≤ p then 1 else ten) * (if 0 ≤ exponent - 2 then two else 1)
  let m := mantissa
  let below := if m = Nat.pow 2 52 ∧ minExponent < exponent then 1 else 2
  let value := 4 * m * b
  let roundsBack (n : Nat) : Bool :=
    let low := (4 * m - below) * b
    let high := (4 * m + 2) * b
    if m % 2 = 0 then low ≤ n * a && n * a ≤ high else low < n * a && n * a < high
  let low := value / a
  let lowFits := roundsBack low
  let highFits := roundsBack (low + 1)
  if lowFits && (!highFits || value - low * a < (low + 1) * a - value) then some ⟨low, p⟩
  else if highFits then some ⟨low + 1, p⟩
  else none

def searchMultiple (mantissa : Nat) (exponent : Int) : Nat → Int → Decimal
  | 0, p => ⟨0, p⟩
  | n + 1, p =>
    match nearestMultiple? mantissa exponent p with
    | some d => d
    | none => searchMultiple mantissa exponent n (p - 1)

/-- The decimal number with the fewest digits that rounds to a positive number. All powers
of ten that can matter lie between the 310th and the -340th. -/
def shortest (mantissa : Nat) (exponent : Int) : Decimal :=
  searchMultiple mantissa exponent 650 310

def Decimal.text (d : Decimal) : Text :=
  let ds := Nat.toDigits 10 d.digits
  if 0 ≤ d.exponent then ds ++ List.replicate d.exponent.toNat '0' ++ ['.', '0']
  else
    let places := (-d.exponent).toNat
    let padded := List.replicate (places + 1 - ds.length) '0' ++ ds
    padded.take (padded.length - places) ++ '.' :: padded.drop (padded.length - places)

def text : Binary64 → Text
  | nan => ['n', 'a', 'n']
  | infinity negative => (if negative then ['-'] else []) ++ ['i', 'n', 'f']
  | finite negative m q =>
    (if negative then ['-'] else []) ++
      (if m = 0 then ['0', '.', '0'] else (shortest m q).text)

end Binary64

end Highlight.Toml
