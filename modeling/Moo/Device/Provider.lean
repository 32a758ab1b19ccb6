import Moo.Device.Buffer
import Moo.Device.Console
import Moo.Device.Layered

/-!
# Providers

What a program is run on: a buffer or a console, under any number of layers.
-/

namespace Moo

inductive Endpoint where
  | buffer (b : Buffer)
  | console (c : Console)
  deriving Repr

namespace Endpoint

def read (channel : Channel) : EStateM Fault Endpoint Int
  | .buffer b =>
    match Buffer.read channel b with
    | .ok n b => .ok n (.buffer b)
    | .error e b => .error e (.buffer b)
  | .console c =>
    match Console.read channel c with
    | .ok n c => .ok n (.console c)
    | .error e c => .error e (.console c)

def write (channel : Channel) (value : Int) : EStateM Fault Endpoint Unit
  | .buffer b =>
    match Buffer.write channel value b with
    | .ok () b => .ok () (.buffer b)
    | .error e b => .error e (.buffer b)
  | .console c =>
    match Console.write channel value c with
    | .ok () c => .ok () (.console c)
    | .error e c => .error e (.console c)

def device : Device Endpoint := ⟨read, write⟩

def buffer? : Endpoint → Option Buffer
  | .buffer b => some b
  | .console _ => none

end Endpoint

/-- An endpoint under layers. -/
abbrev Provider := Layered Endpoint

namespace Provider

def device : Device Provider := Layered.device Endpoint.device

def ofBuffer (b : Buffer) : Provider := .ofBase (.buffer b)

def ofConsole (c : Console) : Provider := .ofBase (.console c)

/-- The provider is a buffer itself, with no layer around it. -/
def isBuffer (p : Provider) : Bool := p.layers.isEmpty && p.base.buffer?.isSome

end Provider

end Moo
