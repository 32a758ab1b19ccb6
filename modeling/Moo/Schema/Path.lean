import Moo.Json.Basic

/-!
# Paths into values

A path leads from a value to a part of it: items by position, members by name. Paths are compared
step by step, and a position cannot be compared with a name. To sort paths, positions are put before
names.
-/

namespace Moo

inductive PathStep where
  | index (i : Nat)
  | name (s : JsonText)
  deriving DecidableEq, Repr

namespace PathStep

/-- The first step comes before the second. One value never has both positions and names. -/
def before : PathStep → PathStep → Bool
  | .index i, .index j => decide (i < j)
  | .name s, .name t => !t.le s
  | .index _, .name _ => true
  | .name _, .index _ => false

/-- The first step comes before the second, unless that puts a position beside a name. -/
def before? : PathStep → PathStep → Option Bool
  | .index i, .index j => some (decide (i < j))
  | .name s, .name t => some (!t.le s)
  | _, _ => none

def shown : PathStep → JsonText
  | .index i => .ofString (toString i)
  | .name s => s

end PathStep

abbrev JsonPath := List PathStep

namespace JsonPath

def le : JsonPath → JsonPath → Bool
  | [], _ => true
  | _ :: _, [] => false
  | a :: p, b :: q => if a = b then le p q else a.before b

/-- The first path comes no later than the second, as far as that can be told without putting a
position beside a name. -/
def le? : JsonPath → JsonPath → Option Bool
  | [], _ => some true
  | _ :: _, [] => some false
  | a :: p, b :: q => if a = b then le? p q else a.before? b

def shown (p : JsonPath) : JsonText :=
  let joined := JsonText.intercalate "/" (p.map PathStep.shown)
  if joined.points = [] then "<root>" else joined

end JsonPath

namespace Json

/-- The item at a position, or the first member of a name. -/
def part? (v : Json) : PathStep → Option Json
  | .index i => match v with
    | .arr items => items[i]?
    | _ => none
  | .name s => match v with
    | .obj members => (members.find? fun m => m.1 == s).map Prod.snd
    | _ => none

def at? (v : Json) : JsonPath → Option Json
  | [] => some v
  | a :: p => (v.part? a).bind fun w => w.at? p

end Json

end Moo
