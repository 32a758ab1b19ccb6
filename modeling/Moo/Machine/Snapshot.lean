import Moo.Json.Basic
import Moo.Machine.Basic
import Moo.Machine.Event

/-!
# Snapshots

A snapshot keeps the cursor, the counter, the register, the number of cells, and the cells that are
not zero by their positions.
-/

namespace Moo

/-- The state of a machine, cells that are zero left out. -/
structure Snapshot where
  cursor : Nat
  counter : Nat
  register : Option Nat
  memorySize : Nat
  /-- Positions and values of the cells that are not zero. -/
  cells : List (Nat × Nat)
  deriving DecidableEq, Repr

/-- The cells that are not zero, the first of the list at `position`. -/
def Snapshot.nonzero (position : Nat) : List Nat → List (Nat × Nat)
  | [] => []
  | v :: rest =>
    if v = 0 then nonzero (position + 1) rest else (position, v) :: nonzero (position + 1) rest

def Machine.snapshot (m : Machine) : Snapshot where
  cursor := m.cursor
  counter := m.counter
  register := m.register
  memorySize := m.cells.size
  cells := Snapshot.nonzero 0 m.cells.toList

def Snapshot.toJson (s : Snapshot) : Json :=
  .record [
    ("cursor", .nat s.cursor),
    ("programCounter", .nat s.counter),
    ("register", .ofOption .nat s.register),
    ("memorySize", .nat s.memorySize),
    ("cells", .record (s.cells.map fun (position, value) => (toString position, .nat value)))]

/-- The reason of a refusal as JSON. Only an invalid command shows its value. -/
def BadEval.toJson (info : BadEval) : Json :=
  .record (("type", .text info.kind) ::
    if info.kind = invalidKind then [("value", .ofOption .int info.value)] else [])

def Event.payload : Event → Json
  | .valueChanged value => .nat value
  | .cursorChanged cursor => .nat cursor
  | .registerChanged register => .ofOption .nat register
  | .badEval info => info.toJson
  | .done => .null

end Moo
