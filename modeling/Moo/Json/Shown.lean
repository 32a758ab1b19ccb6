import Moo.Json.Basic
import Moo.Number.Literal
import Moo.Number.Shortest

/-!
# JSON values in messages

Inside a message a value is written with quoted strings, capitalised words and spaces after commas
and colons, its members in their order. Not every value can be shown: an integer may have too many
digits, and values may nest too deep for the stack. How deep they may nest is up to the platform.
-/

namespace Moo

inductive ShowError where
  | tooLong
  | tooDeep
  deriving DecidableEq, Repr

def ShowError.message : ShowError → String
  | .tooLong => "an integer has too many digits"
  | .tooDeep => "values nest too deep"

namespace Json

open Number (maxDecimalDigits)

mutual

def written : Json → String
  | .null => "None"
  | .bool b => if b then "True" else "False"
  | .int n => toString n
  | .float x => x.toText
  | .str s => s.quote
  | .arr items => "[" ++ String.intercalate ", " (writtenItems items) ++ "]"
  | .obj members => "\x7b" ++ String.intercalate ", " (writtenMembers members) ++ "\x7d"

def writtenItems : List Json → List String
  | [] => []
  | v :: rest => v.written :: writtenItems rest

def writtenMembers : List (JsonText × Json) → List String
  | [] => []
  | (k, v) :: rest => (k.quote ++ ": " ++ v.written) :: writtenMembers rest

end

mutual

/-- What first stands in the way of showing a value whose containers nest at most `depth` deep. -/
def obstacle? : (depth : Nat) → Json → Option ShowError
  | _, .int n =>
    if maxDecimalDigits < (Nat.toDigits 10 n.natAbs).length then some .tooLong else none
  | 0, .arr _ => some .tooDeep
  | 0, .obj _ => some .tooDeep
  | depth + 1, .arr items => itemsObstacle? depth items
  | depth + 1, .obj members => membersObstacle? depth members
  | _, _ => none

def itemsObstacle? (depth : Nat) : List Json → Option ShowError
  | [] => none
  | v :: rest => (v.obstacle? depth).or (itemsObstacle? depth rest)

def membersObstacle? (depth : Nat) : List (JsonText × Json) → Option ShowError
  | [] => none
  | (_, v) :: rest => (v.obstacle? depth).or (membersObstacle? depth rest)

end

def shown (depth : Nat) (v : Json) : Except ShowError String :=
  match v.obstacle? depth with
  | some e => .error e
  | none => .ok v.written

/-- A value as text of its own: a string as it is, everything else as in a message. -/
def display (depth : Nat) : Json → Except ShowError JsonText
  | .str s => .ok s
  | v => do return .ofString (← v.shown depth)

end Json

end Moo
