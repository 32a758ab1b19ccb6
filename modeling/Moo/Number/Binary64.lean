/-!
# Double-precision numbers

A finite double is a sign, a significand below `2^53` and a unit exponent: its magnitude is
`significand * 2^unit / 2^1074`. Decimal numbers become doubles by rounding to the nearest, a tie
going to the even significand, all in exact integer arithmetic.
-/

namespace Moo

inductive Binary64 where
  | nan
  | infinite (negative : Bool)
  /-- The magnitude is `significand * 2^unit / 2^1074`. -/
  | finite (negative : Bool) (significand unit : Nat)
  deriving DecidableEq, Repr

namespace Binary64

/-- The scale of the smallest unit: every finite double is a multiple of `1 / scale`. -/
def scale : Nat := Nat.pow 2 1074

/-- The quotient of two naturals rounded to the nearest one, a tie to the even one. -/
def roundDiv (num den : Nat) : Nat :=
  let q := num / den
  let twice := 2 * (num % den)
  if twice < den || (twice == den && q % 2 == 0) then q else q + 1

/-- A significand in units of `2^unit / scale`, infinite if the unit is beyond those of finite
doubles. -/
def fit (negative : Bool) (significand unit : Nat) : Binary64 :=
  if unit ≤ 2045 then .finite negative significand unit else .infinite negative

/-- The same for a significand that rounding may have brought to `2^53`, which is `2^52` in the next
unit. -/
def carry (negative : Bool) (significand unit : Nat) : Binary64 :=
  if significand = Nat.pow 2 53 then fit negative (Nat.pow 2 52) (unit + 1)
  else fit negative significand unit

/-- The unit of the last of 53 binary digits of `num / den`, or the smallest unit if there are no
more digits above it. -/
def lastUnit (num den : Nat) : Nat := (num * scale / den).log2 - 52

/-- The double nearest to `num / den`, for a positive `den`. Beyond the largest finite double it is
infinite. -/
def ofRatio (negative : Bool) (num den : Nat) : Binary64 :=
  carry negative (roundDiv (num * scale) (den * Nat.pow 2 (lastUnit num den))) (lastUnit num den)

/-- The number of digits that follow the leading zeros. -/
def significantDigits : List Nat → Nat
  | [] => 0
  | d :: ds => if d = 0 then significantDigits ds else ds.length + 1

def ofDigits (base : Nat) (digits : List Nat) : Nat :=
  digits.foldl (fun n d => n * base + d) 0

/-- The double nearest to the digits read as a natural number times `10^exponent`. Magnitudes from
`10^310` on are infinite and those below `10^-330` are zero, whatever the digits, so no larger
power is computed. -/
def ofDecimal (negative : Bool) (digits : List Nat) (exponent : Int) : Binary64 :=
  let n := ofDigits 10 digits
  let top := significantDigits digits + exponent
  if n = 0 || top < -330 then .finite negative 0 0
  else if 310 < top then .infinite negative
  else if 0 ≤ exponent then ofRatio negative (n * Nat.pow 10 exponent.toNat) 1
  else ofRatio negative n (Nat.pow 10 (-exponent).toNat)

/-- The magnitude of a finite double as a multiple of `1 / scale`. -/
def scaled (significand unit : Nat) : Nat := significand * Nat.pow 2 unit

/-- The finite double cut at its point. -/
def truncate? : Binary64 → Option Int
  | .finite negative significand unit =>
    let n : Int := scaled significand unit / scale
    some (if negative then -n else n)
  | _ => none

def isWhole : Binary64 → Bool
  | .finite _ significand unit => scaled significand unit % scale == 0
  | _ => false

def ltInt (x : Binary64) (n : Int) : Bool :=
  match x with
  | .nan => false
  | .infinite negative => negative
  | .finite negative significand unit =>
    let m : Int := scaled significand unit
    (if negative then -m else m) < n * scale

def gtInt (x : Binary64) (n : Int) : Bool :=
  match x with
  | .nan => false
  | .infinite negative => !negative
  | .finite negative significand unit =>
    let m : Int := scaled significand unit
    n * scale < (if negative then -m else m)

def isNonzero : Binary64 → Bool
  | .finite _ significand _ => significand != 0
  | _ => true

end Binary64

end Moo
