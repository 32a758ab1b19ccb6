import Moo.Machine.Step
import Moo.Run.Options

/-!
# Sessions

A session steps a machine, within the step limit, until it has ended. It counts the steps that find
a command, keeps the refusals and the writes, and on request keeps an entry for each step with the
events announced in it.
-/

namespace Moo.Run

inductive Failure where
  | fault (fault : Fault)
  | stepLimit (limit : Int)
  | load (error : LoadError)
  deriving DecidableEq, Repr

def Failure.message : Failure → String
  | .fault e => e.message
  | .stepLimit limit =>
    "step limit of " ++ toString limit ++ " exceeded before the program finished"
  | .load e => e.message

inductive Mode where
  | exec
  | skip
  deriving DecidableEq, Repr

def Mode.name : Mode → String
  | .exec => "exec"
  | .skip => "skip"

structure Entry where
  step : Nat
  counter : Nat
  command : String
  mode : Mode
  events : List Event
  deriving DecidableEq, Repr

structure Session (σ : Type) where
  machine : Machine
  /-- The device, with the writes it was asked for. -/
  device : σ × Array Output
  steps : Nat
  entries : Array Entry
  refusals : Array BadEval

namespace Session

variable {σ : Type}

def start (machine : Machine) (device : σ) : Session σ := ⟨machine, (device, #[]), 0, #[], #[]⟩

def refusalsOf (events : List Event) : List BadEval :=
  events.filterMap fun
    | .badEval info => some info
    | _ => none

/-- One step of the machine with the events announced in it, cut short by a fault or not. -/
def stepOnce (d : Device σ) (machine : Machine) (device : σ × Array Output) :
    EStateM.Result Fault (World (σ × Array Output) (Array Event)) Unit :=
  (Host.observed d.recording).step ⟨machine, device, #[]⟩

/-- The entry of a step that is about to run or pass a command, no events in it yet. -/
def entryBefore (machine : Machine) (c : Command) (step : Nat) : Entry where
  step
  counter := machine.counter
  command := c.name
  mode := if machine.skip = .none then .exec else .skip
  events := []

/-- Take one step of a machine that has not ended. A step is counted when it finds a command. -/
def tick (d : Device σ) (o : Options) : EStateM Failure (Session σ) Unit :=
  fun ⟨machine, device, steps, entries, refusals⟩ =>
    if o.exhaustedAt steps then
      .error (.stepLimit (o.maxSteps.getD 0)) ⟨machine, device, steps, entries, refusals⟩
    else
      match machine.command? with
      | none =>
        match stepOnce d machine device with
        | .ok () w => .ok () ⟨w.machine, w.device, steps, entries, refusals⟩
        | .error e w => .error (.fault e) ⟨w.machine, w.device, steps, entries, refusals⟩
      | some c =>
        let steps := steps + 1
        let entry := entryBefore machine c steps
        match stepOnce d machine device with
        | .ok () w =>
          let events := w.audience.toList
          .ok () ⟨w.machine, w.device, steps,
            if o.trace then entries.push { entry with events } else entries,
            refusals ++ refusalsOf events⟩
        | .error e w => .error (.fault e) ⟨w.machine, w.device, steps, entries, refusals⟩

/-- Where a session is after so many steps at most. -/
inductive Progress (σ : Type) where
  | finished (s : Session σ)
  | failed (failure : Failure) (s : Session σ)
  | running (s : Session σ)

/-- Take steps until the machine has ended or a step fails, at most `budget` of them. -/
def run (d : Device σ) (o : Options) : (budget : Nat) → Session σ → Progress σ
  | 0, s => if s.machine.finished then .finished s else .running s
  | budget + 1, s =>
    if s.machine.finished then .finished s
    else
      match tick d o s with
      | .ok () s => run d o budget s
      | .error failure s => .failed failure s

end Session

end Moo.Run
