import Moo.Command.Catalogue
import Moo.Text.Quoted

/-!
# The machine

A machine has a ring of cells with a cursor, a register, a program with a counter, and a pending
skip. Cells and register hold numbers below 256. What is defined here changes the machine alone;
announcing the changes and talking to a device come on top.

A tape of any size can be allocated here. For how many cells there is room is asked by the command
line, before it loads a program.
-/

namespace Moo

inductive Skip where
  | none
  /-- The next two steps pass. -/
  | nextThenAfter
  /-- The next step passes. -/
  | after
  deriving DecidableEq, Repr

def Skip.name : Skip → String
  | .none => "none"
  | .nextThenAfter => "skipNextThenToAfterEndpoint"
  | .after => "skipToAfterEndpoint"

structure Machine where
  catalogue : Catalogue
  program : Array Command
  cells : Array Nat
  cursor : Nat
  counter : Nat
  register : Option Nat
  skip : Skip
  /-- A cell was refused: the machine ends at the close of the step. -/
  broken : Bool
  finished : Bool
  /-- The counter was set by a jump and is not advanced at the close of the step. -/
  jumped : Bool
  deriving DecidableEq, Repr

inductive LoadError where
  | memorySize (size : Int)
  | foreignCommand (name : String) (position : Nat)
  deriving DecidableEq, Repr

def LoadError.message : LoadError → String
  | .memorySize size => "memory_size must be positive, got " ++ toString size
  | .foreignCommand name position =>
    "command " ++ Text.quote name ++ " at position " ++ toString position ++
      " does not belong to this machine's registry"

namespace Machine

/-- A number as a cell holds it. -/
def wrap (n : Int) : Nat := (n % 256).toNat

/-- The first command that is not from the catalogue, with its position. -/
def foreign? (t : Catalogue) (position : Nat) : List Command → Option (Command × Nat)
  | [] => none
  | c :: rest => if t.at? c.id = some c then foreign? t (position + 1) rest else some (c, position)

/-- A machine at the start of a program, all cells zero. -/
def load (t : Catalogue) (program : List Command) (memorySize : Int) : Except LoadError Machine :=
  if memorySize < 1 then .error (.memorySize memorySize)
  else
    match foreign? t 0 program with
    | some (c, position) => .error (.foreignCommand c.name position)
    | none => .ok {
        catalogue := t
        program := program.toArray
        cells := Array.replicate memorySize.toNat 0
        cursor := 0
        counter := 0
        register := none
        skip := .none
        broken := false
        finished := false
        jumped := false }

def value (m : Machine) : Nat := m.cells.getD m.cursor 0

def command? (m : Machine) : Option Command := m.program[m.counter]?

def store (value : Nat) : Machine → Machine
  | ⟨t, p, cells, cursor, counter, register, skip, broken, finished, jumped⟩ =>
    ⟨t, p, cells.setIfInBounds cursor value, cursor, counter, register, skip, broken, finished,
      jumped⟩

def onRing (m : Machine) (position : Int) : Nat := (position % m.cells.size).toNat

/-- The largest index below `bound` whose command satisfies `p`. -/
def lastBelow (program : Array Command) (p : Command → Nat → Bool) : (bound : Nat) → Option Nat
  | 0 => none
  | i + 1 =>
    match program[i]? with
    | some c => if p c i then some i else lastBelow program p i
    | none => lastBelow program p i

def jumpWhere (p : Command → Nat → Bool) (m : Machine) : Machine :=
  match lastBelow m.program p m.program.size with
  | some i => { m with counter := i, jumped := true }
  | none => m

/-- Jump to the nearest loop start that lies before the command right before the counter. -/
def loopBack (m : Machine) : Machine :=
  let start := m.catalogue.named? Catalogue.loopStart
  m.jumpWhere fun c i => i + 1 < m.counter && decide (some c = start)

def armSkip (m : Machine) : Machine := { m with skip := .nextThenAfter }

/-- Move to the next command, unless a jump has set the counter. -/
def advance (m : Machine) : Machine :=
  if m.jumped then { m with jumped := false } else { m with counter := m.counter + 1 }

end Machine

end Moo
