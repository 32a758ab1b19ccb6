import Moo.Number.Binary64

/-!
# Shortest decimal text

A finite double is written with the fewest digits that read back as the same double, and of those
with the nearest. Notation is positional from `10^-4` up to below `10^16`, and scientific with a
signed exponent of two digits or more elsewhere.
-/

namespace Moo.Binary64

def decimalDigits (n : Nat) : List Nat :=
  (Nat.toDigits 10 n).map fun c => c.toNat - 48

/-- `p * 10^e` and `num / den` as a pair of integers over one denominator. -/
def onGrid (num den : Nat) (e : Int) : Nat × Nat :=
  if 0 ≤ e then (num, den * Nat.pow 10 e.toNat) else (num * Nat.pow 10 (-e).toNat, den)

/-- The neighbours of `num / den` on the grid of multiples of `10^e` that read back as the double,
the nearer one first; an exact tie prefers the even one. -/
def candidates (significand unit num den : Nat) (e : Int) : List Nat :=
  let (a, b) := onGrid num den e
  let low := a / b
  let twice := 2 * (a % b)
  let lowFirst := twice < b || (twice == b && low % 2 == 0)
  let both := if lowFirst then [low, low + 1] else [low + 1, low]
  both.filter fun p => ofDecimal false (decimalDigits p) e == .finite false significand unit

/-- The exponent of the leading digit: the largest `e` with `10^e ≤ num / den`, found by moving from
an estimate. -/
def leadingExponent (num den : Nat) : Int :=
  let n := num / den
  if n ≠ 0 then ((Nat.toDigits 10 n).length : Int) - 1
  else
    -- below one: the leading digit of the inverse, rounded up
    -((Nat.toDigits 10 ((den - 1) / num)).length : Int)

/-- The fewest digits, and the exponent of the leading one, that read back as the double. Seventeen
digits always do, so the search over the digit count ends there. -/
def shortest (significand unit : Nat) : List Nat × Int :=
  let num := scaled significand unit
  let top := leadingExponent num scale
  let found := (List.range 17).findSome? fun (count : Nat) =>
    let e := top - (count : Int)
    (candidates significand unit num scale e).head?.map fun p => (p, e)
  match found with
  | none => ([0], 0)
  | some (p, e) =>
    let digits := decimalDigits p
    (digits, e + digits.length - 1)

def trimZeros (digits : List Nat) : List Nat :=
  match (digits.reverse.dropWhile (· == 0)).reverse with
  | [] => [0]
  | ds => ds

def digitText (digits : List Nat) : String :=
  String.ofList (digits.map fun d => Char.ofNat (48 + d))

/-- Digits with their leading exponent, in positional or scientific notation. -/
def layout (digits : List Nat) (exponent : Int) : String :=
  if -4 ≤ exponent ∧ exponent < 16 then
    if exponent < 0 then
      "0." ++ digitText (List.replicate (-exponent - 1).toNat 0 ++ digits)
    else
      let whole := exponent.toNat + 1
      let padded := digits ++ List.replicate (whole - digits.length) 0
      let fraction := padded.drop whole
      digitText (padded.take whole) ++ "." ++ digitText (if fraction.isEmpty then [0] else fraction)
  else
    let head := digitText (digits.take 1)
    let fraction := digits.drop 1
    let body := if fraction.isEmpty then head else head ++ "." ++ digitText fraction
    let size := toString exponent.natAbs
    let size := if size.length < 2 then "0" ++ size else size
    body ++ "e" ++ (if exponent < 0 then "-" else "+") ++ size

def toText : Binary64 → String
  | .nan => "nan"
  | .infinite negative => if negative then "-inf" else "inf"
  | .finite negative significand unit =>
    let body :=
      if significand = 0 then "0.0"
      else
        let (digits, exponent) := shortest significand unit
        layout (trimZeros digits) exponent
    if negative then "-" ++ body else body

end Moo.Binary64
