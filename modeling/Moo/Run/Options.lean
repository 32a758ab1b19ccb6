/-!
# Options of a run
-/

namespace Moo.Run

structure Options where
  memorySize : Int
  /-- The steps that a program may take, if there is a limit. -/
  maxSteps : Option Int
  /-- Record every step. -/
  trace : Bool
  deriving DecidableEq, Repr

namespace Options

def defaultMemorySize : Int := 30000

def defaultMaxSteps : Int := 1000000

def standard : Options := ⟨defaultMemorySize, some defaultMaxSteps, false⟩

/-- The limit does not allow a further step. -/
def exhaustedAt (o : Options) (steps : Nat) : Bool :=
  match o.maxSteps with
  | some limit => decide (limit ≤ steps)
  | none => false

end Options

end Moo.Run
