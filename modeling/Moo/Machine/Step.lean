import Moo.Device.Basic
import Moo.Machine.Basic
import Moo.Machine.Event

/-!
# Steps

An action changes the machine, talks to the device and announces what it does to an audience. It is
cut short by a fault, and what was done before then stays done. One step runs the command that the
counter points at, or passes it while a skip is pending.

What announcing means is a parameter: a host brings a device and a way to announce.
-/

namespace Moo

/-- A machine with the device it uses and those it announces to. -/
structure World (σ ω : Type) where
  machine : Machine
  device : σ
  audience : ω

/-- Something done to the world, cut short by a fault. -/
abbrev Act (σ ω : Type) := EStateM Fault (World σ ω)

/-- A device, and what it means to announce an event. -/
structure Host (σ ω : Type) where
  device : Device σ
  announce : Event → Act σ ω Unit

namespace Act

variable {σ ω : Type}

def look (f : Machine → α) : Act σ ω α := fun w => .ok (f w.machine) w

def change (f : Machine → Machine) : Act σ ω Unit :=
  fun ⟨machine, device, audience⟩ => .ok () ⟨f machine, device, audience⟩

def useDevice (act : EStateM Fault σ α) : Act σ ω α := fun ⟨machine, device, audience⟩ =>
  match act device with
  | .ok a device => .ok a ⟨machine, device, audience⟩
  | .error e device => .error e ⟨machine, device, audience⟩

end Act

namespace Host

open Act

variable {σ ω : Type} (h : Host σ ω)

/-- Write the current cell and announce what it holds. -/
def setValue (n : Int) : Act σ ω Unit := do
  let value := Machine.wrap n
  change (·.store value)
  h.announce (.valueChanged value)

def setCursor (position : Int) : Act σ ω Unit := do
  let cursor ← look (·.onRing position)
  change fun m => { m with cursor }
  h.announce (.cursorChanged cursor)

def setRegister (n : Option Int) : Act σ ω Unit := do
  let register := n.map Machine.wrap
  change fun m => { m with register }
  h.announce (.registerChanged register)

/-- Announce that a cell was refused; the machine ends at the close of the step. -/
def badEval (info : BadEval) : Act σ ω Unit := do
  h.announce (.badEval info)
  change fun m => { m with broken := true }

/-- End the machine and announce it, once. -/
def finish : Act σ ω Unit := do
  if ← look (·.finished) then return
  change fun m => { m with finished := true }
  h.announce .done

def performPlain : Effect → Act σ ω Unit
  | .loopBack => change (·.loopBack)
  | .left => do
    let cursor ← look (·.cursor)
    h.setCursor ((cursor : Int) - 1)
  | .right => do
    let cursor ← look (·.cursor)
    h.setCursor ((cursor : Int) + 1)
  | .runCell => throw .endlessRun
  | .exchangeChar => do
    let value ← look (·.value)
    if value = 0 then
      let code ← useDevice (h.device.read .char)
      h.setValue code
    else useDevice (h.device.write .char value)
  | .decrement => do
    let value ← look (·.value)
    h.setValue ((value : Int) - 1)
  | .increment => do
    let value ← look (·.value)
    h.setValue ((value : Int) + 1)
  | .skipIfZero => do
    if (← look (·.value)) = 0 then change (·.armSkip)
  | .clear => h.setValue 0
  | .swapRegister => do
    match ← look (·.register) with
    | none =>
      let value ← look (·.value)
      h.setRegister (some value)
    | some n =>
      h.setValue n
      h.setRegister none
  | .writeNumber => do
    let value ← look (·.value)
    useDevice (h.device.write .byte value)
  | .readNumber => do
    let n ← useDevice (h.device.read .byte)
    h.setValue n

/-- Run the command whose number is in the current cell. A number of no command is refused, and so
is that of the command the counter points at. A command found that would run a cell in turn would
find itself again, for ever. -/
def runCell : Act σ ω Unit := do
  let value ← look (·.value)
  match ← look (·.catalogue.at? value) with
  | none => h.badEval (.invalidCommand value)
  | some c =>
    if (← look (·.command?)) = some c then h.badEval .evalLoop else h.performPlain c.effect

def perform : Effect → Act σ ω Unit
  | .runCell => h.runCell
  | e => h.performPlain e

def visit (c : Command) : Act σ ω Unit := do
  match ← look (·.skip) with
  | .nextThenAfter => change fun m => { m with skip := .after }
  | .after => change fun m => { m with skip := .none }
  | .none => h.perform c.effect

/-- Advance, and end after a refusal or past the last command. -/
def close : Act σ ω Unit := do
  change (·.advance)
  if ← look fun m => m.broken || m.command?.isNone then h.finish

/-- One step. A machine that has ended does nothing. -/
def step : Act σ ω Unit := do
  if ← look (·.finished) then return
  match ← look (·.command?) with
  | none => h.finish
  | some c =>
    h.visit c
    h.close

end Host

/-- A host whose audience only takes down what is announced. -/
def Host.observed (d : Device σ) : Host σ (Array Event) where
  device := d
  announce e := fun ⟨machine, device, audience⟩ => .ok () ⟨machine, device, audience.push e⟩

end Moo
