import Moo.Cli.Arguments
import Moo.Number.Literal
import Moo.Run.Options

/-!
# Settings of the runner

A text given without a value is empty. A number given without a value is kept as missing: it makes
no command line wrong, but nothing can be run with it.
-/

namespace Moo.Cli

structure Settings where
  program : String
  /-- Characters served to reads. -/
  input : Option String
  /-- Integers served to reads. -/
  numbers : List (Option Int)
  memorySize : Option Int
  maxSteps : Option Int
  noStepLimit : Bool
  trace : Bool
  printLogs : Bool
  printReceipt : Bool
  receiptOut : Option String
  validate : Bool
  deriving DecidableEq, Repr

namespace Settings

def standard : Settings where
  program := ""
  input := none
  numbers := []
  memorySize := some Run.Options.defaultMemorySize
  maxSteps := some Run.Options.defaultMaxSteps
  noStepLimit := false
  trace := false
  printLogs := false
  printReceipt := false
  receiptOut := none
  validate := false

def grammar : Grammar where
  switches := [.help, .valued "--input", .valued "--in", .valued "--memory-size",
    .valued "--max-steps", .flag "--no-step-limit", .flag "--trace", .flag "--print-logs",
    .flag "--print-receipt", .valued "--receipt-out", .flag "--validate"]
  slot := "program"
  many := false

def integer (label value : String) : Except UsageError Int :=
  match Number.decimalInteger? value with
  | some n => .ok n
  | none => .error (.badValue label ("invalid int value: " ++ Text.quote value))

def positive (label value : String) : Except UsageError Int :=
  match Number.decimalInteger? value with
  | none => .error (.badValue label ("expected an integer, got " ++ Text.quote value))
  | some n =>
    if n < 1 then
      .error (.badValue label ("expected a positive integer, got " ++ toString n))
    else .ok n

def setFlag (s : Settings) : String → Settings
  | "--no-step-limit" => { s with noStepLimit := true }
  | "--trace" => { s with trace := true }
  | "--print-logs" => { s with printLogs := true }
  | "--print-receipt" => { s with printReceipt := true }
  | "--validate" => { s with validate := true }
  | _ => s

def setValue (s : Settings) (label : String) (value : Option String) :
    Except UsageError Settings :=
  match label with
  | "--input" => .ok { s with input := some (value.getD "") }
  | "--in" => do return { s with numbers := s.numbers ++ [← value.mapM (integer label)] }
  | "--memory-size" => do return { s with memorySize := ← value.mapM (positive label) }
  | "--max-steps" => do return { s with maxSteps := ← value.mapM (positive label) }
  | "--receipt-out" => .ok { s with receiptOut := some (value.getD "") }
  | _ => .ok s

inductive Reading (α : Type) where
  | settings (s : α)
  | help
  | error (e : UsageError)

def take (s : Settings) (complaint : Option UsageError) : List Given → Reading Settings
  | [] =>
    match complaint with
    | some e => .error e
    | none => .settings s
  | .help :: _ => .help
  | .slot arguments :: rest => take { s with program := arguments.headD "" } complaint rest
  | .flag switch :: rest => take (s.setFlag switch.label) complaint rest
  | .value switch value :: rest =>
    match s.setValue switch.label value with
    | .ok s => take s complaint rest
    | .error e => .error e

/-- Read a command line. A value that is not allowed is reported before anything after it. -/
def ofArguments (arguments : List String) : Reading Settings :=
  let (given, complaint) := grammar.parse arguments
  standard.take complaint given

def isScripted (s : Settings) : Bool := s.input.isSome || !s.numbers.isEmpty

/-- The integers served to reads, if none is missing. -/
def numbers? (s : Settings) : Option (List Int) := s.numbers.mapM id

/-- The number of cells asked for, if there is no room for so many. -/
def excess? (hasRoom : Int → Bool) (s : Settings) : Option Int :=
  s.memorySize.filter fun size => !hasRoom size

/-- The options of the run, if no number that they need is missing. -/
def options? (s : Settings) : Option Run.Options := do
  let memorySize ← s.memorySize
  let maxSteps ← if s.noStepLimit then some none else s.maxSteps.map some
  return { memorySize, maxSteps, trace := s.trace }

end Settings

end Moo.Cli
