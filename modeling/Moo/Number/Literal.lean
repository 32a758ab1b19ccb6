import Moo.Number.Binary64
import Moo.Text.Class
import Moo.Text.Line
import Moo.Text.Quoted

/-!
# Number literals

An integer literal is decimal, or has one of the prefixes `0x`, `0o` and `0b`; single underscores
may stand between digits; a decimal literal other than zero has no leading zero and at most
`maxDecimalDigits` digits. A decimal literal may have a point and an exponent. Digits of any script
count, and blanks around a literal do not. A number is an integer literal or else a finite decimal
literal cut at its point.
-/

namespace Moo.Number

open Moo.Text

/-- The longest decimal integer literal that is read exactly. -/
def maxDecimalDigits : Nat := 4300

def digit? (base : Nat) (c : Char) : Option Nat :=
  let value :=
    if c.isDigit then c.toNat - 48
    else if 'a' ≤ c ∧ c ≤ 'z' then c.toNat - 87
    else if 'A' ≤ c ∧ c ≤ 'Z' then c.toNat - 55
    else base
  if value < base then some value else none

/-- A nonempty run of digits with single underscores allowed between them. -/
def digits? (base : Nat) : List Char → Option (List Nat)
  | [] => none
  | [c] => (digit? base c).map ([·])
  | c :: '_' :: rest => return (← digit? base c) :: (← digits? base rest)
  | c :: rest => return (← digit? base c) :: (← digits? base rest)

def digitsOrEmpty? (base : Nat) (cs : List Char) : Option (List Nat) :=
  if cs.isEmpty then some [] else digits? base cs

def foldDigits (cs : List Char) : List Char :=
  cs.map fun c =>
    match decimal? c with
    | some d => Char.ofNat (48 + d)
    | none => c

/-- The text of a literal: blanks stripped, digits in ASCII. -/
def normalize (s : String) : List Char :=
  foldDigits (stripBy isNumberBlank s.toList)

def splitSign : List Char → Bool × List Char
  | '-' :: rest => (true, rest)
  | '+' :: rest => (false, rest)
  | cs => (false, cs)

def withSign (negative : Bool) (n : Nat) : Int :=
  if negative then -(n : Int) else n

/-- Digits after a base prefix; one underscore may follow the prefix. -/
def prefixed? (base : Nat) (cs : List Char) : Option Nat :=
  let cs := match cs with
    | '_' :: rest => rest
    | _ => cs
  (digits? base cs).map (Binary64.ofDigits base)

def decimalDigits? (cs : List Char) : Option (List Nat) :=
  (digits? 10 cs).filter (·.length ≤ maxDecimalDigits)

/-- A decimal literal: zero, or digits without a leading zero. -/
def plainDecimal? (cs : List Char) : Option Nat := do
  let ds ← decimalDigits? cs
  let n := Binary64.ofDigits 10 ds
  if cs.head? = some '0' ∧ n ≠ 0 then none else some n

def magnitude? : List Char → Option Nat
  | '0' :: 'x' :: rest | '0' :: 'X' :: rest => prefixed? 16 rest
  | '0' :: 'o' :: rest | '0' :: 'O' :: rest => prefixed? 8 rest
  | '0' :: 'b' :: rest | '0' :: 'B' :: rest => prefixed? 2 rest
  | cs => plainDecimal? cs

def integer? (cs : List Char) : Option Int :=
  let (negative, body) := splitSign cs
  (magnitude? body).map (withSign negative)

/-- A decimal integer in which leading zeros are allowed and prefixes are not. -/
def decimalInteger? (s : String) : Option Int :=
  let (negative, body) := splitSign (normalize s)
  (decimalDigits? body).map fun ds => withSign negative (Binary64.ofDigits 10 ds)

def exponent? (cs : List Char) : Option Int :=
  let (negative, body) := splitSign cs
  (digits? 10 body).map fun ds => withSign negative (Binary64.ofDigits 10 ds)

/-- Split at the first character that satisfies `p`, which is dropped. -/
def splitAt (p : Char → Bool) (cs : List Char) : List Char × Option (List Char) :=
  match cs.dropWhile (fun c => !p c) with
  | [] => (cs, none)
  | _ :: rest => (cs.takeWhile (fun c => !p c), some rest)

/-- The digits of a decimal literal without its sign, and the power of ten of the last one. -/
def scientific? (cs : List Char) : Option (List Nat × Int) := do
  let (mantissa, power) := splitAt (fun c => c == 'e' || c == 'E') cs
  let (whole, fraction) := splitAt (· == '.') mantissa
  let fraction := fraction.getD []
  if whole.isEmpty && fraction.isEmpty then none
  let ws ← digitsOrEmpty? 10 whole
  let fs ← digitsOrEmpty? 10 fraction
  let e ← match power with
    | none => some 0
    | some cs => exponent? cs
  return (ws ++ fs, e - fs.length)

def double? (cs : List Char) : Option Binary64 :=
  let (negative, body) := splitSign cs
  let word := String.ofList (body.map Char.toLower)
  if word = "inf" ∨ word = "infinity" then some (.infinite negative)
  else if word = "nan" then some .nan
  else (scientific? body).map fun (ds, e) => Binary64.ofDecimal negative ds e

inductive LiteralError where
  /-- The text follows no grammar of numbers. -/
  | malformed
  /-- The text stands for an infinity or for no number at all. -/
  | notFinite
  deriving DecidableEq, Repr

def LiteralError.message (text : String) : LiteralError → String
  | .malformed => "not a number: " ++ quote text
  | .notFinite => "not a finite number: " ++ quote text

/-- Read a number: an integer literal, or else a finite decimal literal cut at its point. -/
def parse (s : String) : Except LiteralError Int :=
  let cs := normalize s
  match integer? cs with
  | some n => .ok n
  | none =>
    match double? cs with
    | none => .error .malformed
    | some x =>
      match x.truncate? with
      | some n => .ok n
      | none => .error .notFinite

end Moo.Number
