import Moo.Json.Basic
import Moo.Number.Literal

/-!
# Reading JSON

A document is one value with blanks around it. Strings hold no raw control characters; the words
`NaN`, `Infinity` and `-Infinity` are doubles; an integer has at most as many digits as an integer
literal may have. How deep values may nest is up to the platform.
-/

namespace Moo.Json

open Number (digits? maxDecimalDigits)

/-- Drop blanks: space, tab, newline, carriage return. -/
def skipBlanks (cs : List Char) : List Char :=
  cs.dropWhile fun c => c == ' ' || c == '\t' || c == '\n' || c == '\r'

def hexValue? (c : Char) : Option Nat := Number.digit? 16 c

def unit? : List Char → Option (Nat × List Char)
  | a :: b :: c :: d :: rest => do
    let n := (((← hexValue? a) * 16 + (← hexValue? b)) * 16 + (← hexValue? c)) * 16 +
      (← hexValue? d)
    return (n, rest)
  | _ => none

def escaped? : Char → Option Char
  | '\x22' => some '\x22'
  | '\\' => some '\\'
  | '/' => some '/'
  | 'b' => some '\x08'
  | 'f' => some '\x0c'
  | 'n' => some '\n'
  | 'r' => some '\r'
  | 't' => some '\t'
  | _ => none

/-- The code point of a pair with the high half given, if an escape for a low half follows. -/
def lowHalf? (high : Nat) : List Char → Option (CodePoint × List Char)
  | '\\' :: 'u' :: rest => do
    let (low, rest) ← unit? rest
    if 0xdc00 ≤ low ∧ low < 0xe000 then
      some (Fin.ofNat _ (0x10000 + (high - 0xd800) * 0x400 + (low - 0xdc00)), rest)
    else none
  | _ => none

/-- The code point of an escape by UTF-16 units; a half without its partner stands alone. -/
def unicode? (cs : List Char) : Option (CodePoint × List Char) := do
  let (n, rest) ← unit? cs
  if 0xd800 ≤ n ∧ n < 0xdc00 then
    match lowHalf? n rest with
    | some found => some found
    | none => some (Fin.ofNat _ n, rest)
  else some (Fin.ofNat _ n, rest)

/-- The rest of a string after its opening quote; `acc` holds what came before, latest first, and
`fuel` bounds the characters. -/
def stringBody : (fuel : Nat) → (acc : List CodePoint) → List Char → Option (JsonText × List Char)
  | 0, _, _ => none
  | _ + 1, _, [] => none
  | fuel + 1, acc, c :: rest =>
    if c = '\x22' then some (⟨acc.reverse⟩, rest)
    else if c = '\\' then
      match rest with
      | 'u' :: more =>
        match unicode? more with
        | some (d, after) => stringBody fuel (d :: acc) after
        | none => none
      | e :: more =>
        match escaped? e with
        | some d => stringBody fuel (.ofChar d :: acc) more
        | none => none
      | [] => none
    else if c.toNat < 32 then none
    else stringBody fuel (.ofChar c :: acc) rest

def string? (cs : List Char) : Option (JsonText × List Char) := stringBody (cs.length + 1) [] cs

def spanDigits (cs : List Char) : List Char × List Char :=
  (cs.takeWhile Char.isDigit, cs.dropWhile Char.isDigit)

/-- The digits of a whole part: a zero, or digits that start with another one. -/
def wholePart? : List Char → Option (List Char × List Char)
  | '0' :: rest => some (['0'], rest)
  | cs =>
    let (ds, rest) := spanDigits cs
    if ds.isEmpty then none else some (ds, rest)

/-- The digits of a fraction; nothing if none follows. -/
def fractionPart (cs : List Char) : List Char × List Char :=
  match cs with
  | '.' :: rest =>
    let (ds, after) := spanDigits rest
    if ds.isEmpty then ([], cs) else (ds, after)
  | _ => ([], cs)

def exponentPart (cs : List Char) : Option Int × List Char :=
  match cs with
  | e :: rest =>
    if e = 'e' ∨ e = 'E' then
      let (negative, body) := Number.splitSign rest
      let (ds, after) := spanDigits body
      match digits? 10 ds with
      | some ds => (some (Number.withSign negative (Binary64.ofDigits 10 ds)), after)
      | none => (none, cs)
    else (none, cs)
  | [] => (none, cs)

def number? (negative : Bool) (cs : List Char) : Option (Json × List Char) := do
  let (whole, rest) ← wholePart? cs
  let (fraction, rest) := fractionPart rest
  let (power, rest) := exponentPart rest
  if fraction.isEmpty && power.isNone then
    if maxDecimalDigits < whole.length then none
    let ds ← digits? 10 whole
    return (.int (Number.withSign negative (Binary64.ofDigits 10 ds)), rest)
  else
    let ds ← digits? 10 (whole ++ fraction)
    return (.float (Binary64.ofDecimal negative ds (power.getD 0 - fraction.length)), rest)

def word? (word : String) (cs : List Char) : Option (List Char) :=
  if word.toList.isPrefixOf cs then some (cs.drop word.length) else none

def scalar? (cs : List Char) : Option (Json × List Char) :=
  match cs with
  | '\x22' :: rest => (string? rest).map fun (s, after) => (.str s, after)
  | 'n' :: _ => (word? "null" cs).map fun rest => (.null, rest)
  | 't' :: _ => (word? "true" cs).map fun rest => (.bool true, rest)
  | 'f' :: _ => (word? "false" cs).map fun rest => (.bool false, rest)
  | 'N' :: _ => (word? "NaN" cs).map fun rest => (.float .nan, rest)
  | 'I' :: _ => (word? "Infinity" cs).map fun rest => (.float (.infinite false), rest)
  | '-' :: rest =>
    match word? "Infinity" rest with
    | some after => some (.float (.infinite true), after)
    | none => number? true rest
  | _ => number? false cs

mutual

/-- A value at the front of a text. Each of the three readers spends one unit of `fuel`; `depth` is
how many containers may still be opened. -/
def value? : (fuel depth : Nat) → List Char → Option (Json × List Char)
  | 0, _, _ => none
  | fuel + 1, depth, cs =>
    match cs with
    | '[' :: rest =>
      match depth, skipBlanks rest with
      | 0, _ => none
      | _, ']' :: after => some (.arr [], after)
      | depth + 1, rest => (items? fuel depth rest).map fun (vs, after) => (.arr vs, after)
    | '\x7b' :: rest =>
      match depth, skipBlanks rest with
      | 0, _ => none
      | _, '\x7d' :: after => some (.obj [], after)
      | depth + 1, rest =>
        (members? fuel depth rest).map fun (ms, after) => (.obj (collect ms), after)
    | _ => scalar? cs

def items? : (fuel depth : Nat) → List Char → Option (List Json × List Char)
  | 0, _, _ => none
  | fuel + 1, depth, cs =>
    match value? fuel depth cs with
    | none => none
    | some (v, rest) =>
      match skipBlanks rest with
      | ']' :: after => some ([v], after)
      | ',' :: after =>
        (items? fuel depth (skipBlanks after)).map fun (vs, after) => (v :: vs, after)
      | _ => none

def members? : (fuel depth : Nat) → List Char → Option (List (JsonText × Json) × List Char)
  | 0, _, _ => none
  | fuel + 1, depth, cs =>
    match cs with
    | '\x22' :: rest =>
      match string? rest with
      | none => none
      | some (k, rest) =>
        match skipBlanks rest with
        | ':' :: rest =>
          match value? fuel depth (skipBlanks rest) with
          | none => none
          | some (v, rest) =>
            match skipBlanks rest with
            | '\x7d' :: after => some ([(k, v)], after)
            | ',' :: after =>
              (members? fuel depth (skipBlanks after)).map fun (ms, after) =>
                ((k, v) :: ms, after)
            | _ => none
        | _ => none
    | _ => none

end

/-- Read a document whose containers nest at most `depth` deep. Every reader consumes a character
before it calls the next but one, so twice the length of the text is fuel enough. -/
def parse? (depth : Nat) (s : String) : Option Json :=
  let cs := skipBlanks s.toList
  match value? (2 * cs.length + 2) depth cs with
  | some (v, rest) => if (skipBlanks rest).isEmpty then some v else none
  | none => none

end Moo.Json
