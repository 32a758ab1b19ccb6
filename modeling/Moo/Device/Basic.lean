import Moo.Fault
import Moo.Text.Quoted

/-!
# Devices

A device serves the reads and takes the writes of a machine, on two channels: characters and
numbers. It keeps its state also when it fails.
-/

namespace Moo

/-- What passes in one read or write. -/
inductive Channel where
  | char
  | byte
  deriving DecidableEq, Repr

def Channel.name : Channel → String
  | .char => "char"
  | .byte => "byte"

structure Device (σ : Type) where
  read : Channel → EStateM Fault σ Int
  write : Channel → Int → EStateM Fault σ Unit

structure Output where
  channel : Channel
  value : Int
  deriving DecidableEq, Repr

def charOfCode? (code : Int) : Option Char :=
  if 0 ≤ code ∧ code.toNat.isValidChar then some (Char.ofNat code.toNat) else none

/-- The text that a write shows: a character, or a number on a line of its own. -/
def Output.text : Output → Except Fault String
  | ⟨.char, code⟩ =>
    match charOfCode? code with
    | some c => .ok (String.singleton c)
    | none => .error (.noSuchChar code)
  | ⟨.byte, n⟩ => .ok (toString n ++ "\n")

def Output.render (outputs : List Output) : Except Fault String :=
  outputs.foldlM (fun shown output => do return shown ++ (← output.text)) ""

/-- A device that also keeps a record of the writes it is asked for. -/
def Device.recording (d : Device σ) : Device (σ × Array Output) where
  read channel := fun (s, record) =>
    match d.read channel s with
    | .ok n s => .ok n (s, record)
    | .error e s => .error e (s, record)
  write channel value := fun (s, record) =>
    let record := record.push ⟨channel, value⟩
    match d.write channel value s with
    | .ok () s => .ok () (s, record)
    | .error e s => .error e (s, record)

end Moo
