import Moo.Device.Basic

/-!
# Layered devices

A layer takes over some operations of the device below it. Each call goes to the outermost layer
that has taken over its operation, or to the base if none has.
-/

namespace Moo

inductive Operation where
  | read (channel : Channel)
  | write (channel : Channel)
  deriving DecidableEq, Repr

def Operation.name : Operation → String
  | .read .char => "read_char"
  | .read .byte => "read_byte"
  | .write .char => "write_char"
  | .write .byte => "write_byte"

def Operation.named? (name : String) : Option Operation :=
  [.read .char, .read .byte, .write .char, .write .byte].find? (·.name == name)

/-- The answers of an overridden read: the next one, and those after it. The last is repeated. -/
structure Answers where
  next : Int
  later : List Int
  deriving DecidableEq, Repr

def Answers.tail : Answers → Answers
  | ⟨n, []⟩ => ⟨n, []⟩
  | ⟨_, n :: rest⟩ => ⟨n, rest⟩

/-- The operations that a layer has taken over: reads with their answers, and writes, which it
drops. -/
structure Layer where
  reads : List (Channel × Answers)
  writes : List Channel
  deriving DecidableEq, Repr

namespace Layer

/-- Take the answer to a read, if the layer overrides it. -/
def answer? (channel : Channel) : List (Channel × Answers) → Option (Int × List (Channel × Answers))
  | [] => none
  | (c, a) :: rest =>
    if c = channel then some (a.next, (c, a.tail) :: rest)
    else (answer? channel rest).map fun (n, rest) => (n, (c, a) :: rest)

def answerThrough? (channel : Channel) : List Layer → Option (Int × List Layer)
  | [] => none
  | layer :: below =>
    match answer? channel layer.reads with
    | some (n, reads) => some (n, { layer with reads } :: below)
    | none => (answerThrough? channel below).map fun (n, below) => (n, layer :: below)

/-- Take over operations by name: a list of answers for a read, nothing for a write. The names that
are no operations are given back, in order. -/
def ofTable (table : List (String × List Int)) : Except (List String) Layer :=
  let unknown := (table.map (·.1)).filter fun name => (Operation.named? name).isNone
  if unknown.isEmpty then
    .ok {
      reads := table.filterMap fun (name, answers) =>
        match Operation.named? name, answers with
        | some (.read channel), n :: rest => some (channel, ⟨n, rest⟩)
        | _, _ => none
      writes := table.filterMap fun (name, _) =>
        match Operation.named? name with
        | some (.write channel) => some channel
        | _ => none }
  else .error (unknown.mergeSort fun a b => decide (a ≤ b))

def unknownMessage (names : List String) : String :=
  "unknown I/O operation(s): " ++ String.intercalate ", " names

end Layer

structure Call where
  operation : Operation
  /-- The value of a write. -/
  value : Option Int
  deriving DecidableEq, Repr

/-- A base under layers, the outermost first, with a record of the calls that the layers took. -/
structure Layered (σ : Type) where
  layers : List Layer
  base : σ
  calls : Array Call

namespace Layered

def ofBase (base : σ) : Layered σ := ⟨[], base, #[]⟩

def override (layer : Layer) (s : Layered σ) : Layered σ := { s with layers := layer :: s.layers }

/-- Serve a read from the outermost layer that overrides it, or else from the base. -/
def read (d : Device σ) (channel : Channel) : EStateM Fault (Layered σ) Int :=
  fun ⟨layers, base, calls⟩ =>
    match Layer.answerThrough? channel layers with
    | some (n, layers) => .ok n ⟨layers, base, calls.push ⟨.read channel, none⟩⟩
    | none =>
      match d.read channel base with
      | .ok n base => .ok n ⟨layers, base, calls⟩
      | .error e base => .error e ⟨layers, base, calls⟩

/-- Drop a write that some layer overrides, or else pass it to the base. -/
def write (d : Device σ) (channel : Channel) (value : Int) : EStateM Fault (Layered σ) Unit :=
  fun ⟨layers, base, calls⟩ =>
    if layers.any (·.writes.contains channel) then
      .ok () ⟨layers, base, calls.push ⟨.write channel, some value⟩⟩
    else
      match d.write channel value base with
      | .ok () base => .ok () ⟨layers, base, calls⟩
      | .error e base => .error e ⟨layers, base, calls⟩

def device (d : Device σ) : Device (Layered σ) := ⟨read d, write d⟩

end Layered

end Moo
