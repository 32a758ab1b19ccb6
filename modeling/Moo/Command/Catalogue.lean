import Moo.Command.Basic
import Moo.Json.Basic

/-!
# Catalogues

A catalogue numbers its rows from zero. By number every row can be reached; by name the last row
of that name is.
-/

namespace Moo

/-- An ordered table of names and effects. -/
structure Catalogue where
  brand : Nat
  rows : List (String × Effect)
  deriving DecidableEq, Repr

namespace Catalogue

def commands (t : Catalogue) : List Command :=
  t.rows.mapIdx fun id row => ⟨t.brand, id, row.1, row.2⟩

def at? (t : Catalogue) (id : Int) : Option Command :=
  if 0 ≤ id then t.rows[id.toNat]?.map fun row => ⟨t.brand, id.toNat, row.1, row.2⟩ else none

/-- The command of a number that is given as a value of any kind. Truth values and doubles are not
the number of a command. -/
def numbered? (t : Catalogue) : Json → Option Command
  | .int id => t.at? id
  | _ => none

/-- The last command of a name. -/
def named? (t : Catalogue) (name : String) : Option Command :=
  t.commands.reverse.find? (·.name == name)

def contains (t : Catalogue) (name : String) : Bool := t.rows.any (·.1 == name)

def names (t : Catalogue) : List String := t.rows.map (·.1)

def size (t : Catalogue) : Nat := t.rows.length

def loopStart : String := "MOO"

/-- The rows of the language. Their order is part of it: cells name commands by number. -/
def standardRows : List (String × Effect) :=
  [("moo", .loopBack),
   ("mOo", .left),
   ("moO", .right),
   ("mOO", .runCell),
   ("Moo", .exchangeChar),
   ("MOo", .decrement),
   ("MoO", .increment),
   (loopStart, .skipIfZero),
   ("OOO", .clear),
   ("MMM", .swapRegister),
   ("OOM", .writeNumber),
   ("oom", .readNumber)]

def standard : Catalogue := ⟨0, standardRows⟩

end Catalogue

end Moo
