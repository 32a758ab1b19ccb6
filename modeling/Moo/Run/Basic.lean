import Moo.Run.Receipt

/-!
# Runs

A run parses a text, loads the program, steps it on a device until it has ended, and writes the
receipt.
-/

namespace Moo.Run

/-- What to run: a text, perhaps from a path, under a catalogue and options. -/
structure Job where
  text : String
  path : Option String
  catalogue : Catalogue
  options : Options
  stamp : Stamp

structure Result (σ : Type) where
  machine : Machine
  device : σ
  receipt : Receipt

/-- How a run that is given a budget of steps came out. -/
inductive Outcome (σ : Type) where
  | finished (result : Result σ)
  | failed (failure : Failure) (device : σ)
  /-- The budget was too small. -/
  | unfinished (device : σ)

namespace Job

variable {σ : Type}

def heading (j : Job) : Heading := .ofText j.text j.path j.stamp

/-- The summary of a session that has ended. The text of the output is kept if `buffered`. -/
def summary (j : Job) (buffered : Bool) (s : Session σ) : Except Fault Summary := do
  let output := s.device.2.toList
  let stdout ← if buffered then some <$> Output.render output else pure none
  return {
    tokens := (Token.ofText j.text).length
    commands := s.machine.program.size
    steps := s.steps
    snapshot := s.machine.snapshot
    output
    stdout
    refusals := s.refusals.toList }

def conclude (j : Job) (buffered : Bool) : Session.Progress σ → Outcome σ
  | .finished s =>
    match j.summary buffered s with
    | .ok summary =>
      .finished ⟨s.machine, s.device.1, .ofSummary j.heading summary s.entries.toList⟩
    | .error fault => .failed (.fault fault) s.device.1
  | .failed failure s => .failed failure s.device.1
  | .running s => .unfinished s.device.1

def runWithin (budget : Nat) (d : Device σ) (buffered : Bool) (j : Job) (device : σ) : Outcome σ :=
  match Machine.load j.catalogue (j.catalogue.program j.text) j.options.memorySize with
  | .error e => .failed (.load e) device
  | .ok machine => j.conclude buffered ((Session.start machine device).run d j.options budget)

/-- A budget that a run within its step limit cannot use up. A run without a limit is given up after
as many steps as there is patience for. -/
def budget (patience : Nat) (j : Job) : Nat :=
  match j.options.maxSteps with
  | some limit => limit.toNat + 2
  | none => patience

def run (patience : Nat) (d : Device σ) (buffered : Bool) (j : Job) (device : σ) : Outcome σ :=
  j.runWithin (j.budget patience) d buffered device

end Job

end Moo.Run
