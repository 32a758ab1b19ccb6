/-!
# Events

The machine announces every write to its cells, its cursor and its register, with the value stored,
every refusal to run a cell, and its end.
-/

namespace Moo

/-- Why a cell was not run as a command. The two reasons of the language are `invalidCommand` and
`evalLoop`; whoever drives the machine may give others. -/
structure BadEval where
  kind : String
  value : Option Int
  deriving DecidableEq, Repr

namespace BadEval

/-- The kind of a cell that is the number of no command. -/
def invalidKind : String := "invalidCommand"

/-- The kind of a cell that is the number of the command that would run it. -/
def loopKind : String := "evalLoop"

def invalidCommand (value : Nat) : BadEval := ⟨invalidKind, some value⟩

def evalLoop : BadEval := ⟨loopKind, none⟩

end BadEval

inductive Event where
  | valueChanged (value : Nat)
  | cursorChanged (cursor : Nat)
  | registerChanged (register : Option Nat)
  | badEval (info : BadEval)
  | done
  deriving DecidableEq, Repr

inductive EventKind where
  | valueChanged
  | cursorChanged
  | registerChanged
  | badEval
  | done
  deriving DecidableEq, Repr

def Event.kind : Event → EventKind
  | .valueChanged _ => .valueChanged
  | .cursorChanged _ => .cursorChanged
  | .registerChanged _ => .registerChanged
  | .badEval _ => .badEval
  | .done => .done

namespace EventKind

def all : List EventKind := [.valueChanged, .cursorChanged, .registerChanged, .badEval, .done]

def name : EventKind → String
  | .valueChanged => "valueChanged"
  | .cursorChanged => "cursorChanged"
  | .registerChanged => "registerChanged"
  | .badEval => "badEval"
  | .done => "done"

def named? (name : String) : Option EventKind := all.find? (·.name == name)

end EventKind

end Moo
