import Moo.Json.Text
import Moo.Number.Binary64

/-!
# JSON values

An object keeps its members in the order in which their names first appear, and the last value
given to a name. Integers are exact and kept apart from doubles.
-/

namespace Moo

inductive Json where
  | null
  | bool (b : Bool)
  | int (n : Int)
  | float (x : Binary64)
  | str (s : JsonText)
  | arr (items : List Json)
  | obj (members : List (JsonText × Json))
  deriving Repr, Inhabited

namespace Json

def text (s : String) : Json := .str (.ofString s)

/-- An object whose names are strings. -/
def record (members : List (String × Json)) : Json :=
  .obj (members.map fun (name, v) => (.ofString name, v))

def member? (name : String) (members : List (JsonText × Json)) : Option Json :=
  (members.find? fun m => m.1 == .ofString name).map Prod.snd

def field? (v : Json) (name : String) : Option Json :=
  match v with
  | .obj members => member? name members
  | _ => none

/-- Give a name its value: in place if the name is known, else at the end. -/
def put (name : JsonText) (v : Json) : List (JsonText × Json) → List (JsonText × Json)
  | [] => [(name, v)]
  | (k, w) :: rest => if k = name then (k, v) :: rest else (k, w) :: put name v rest

/-- Members in the order of their first appearance, each with its last value. -/
def collect (members : List (JsonText × Json)) : List (JsonText × Json) :=
  members.foldl (fun known (k, v) => put k v known) []

/-- Neither null, nor false, nor zero, nor empty. -/
def isTruthy : Json → Bool
  | .null => false
  | .bool b => b
  | .int n => n != 0
  | .float x => x.isNonzero
  | .str s => !s.points.isEmpty
  | .arr items => !items.isEmpty
  | .obj members => !members.isEmpty

def ofOption (f : α → Json) : Option α → Json
  | none => .null
  | some a => f a

def nat (n : Nat) : Json := .int n

end Json

end Moo
