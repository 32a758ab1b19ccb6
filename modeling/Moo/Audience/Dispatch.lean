import Moo.Audience.Basic
import Moo.Machine.Step

/-!
# Dispatch

An event is announced to those subscribed when its announcement begins, one after the other, also
when they change the machine or subscribe others meanwhile. A fault ends the announcement and
whatever led to it.

A subscriber that asks something of the machine uses up a part of its schedule before it does, so
announcements nest at most as deep as the schedules provide for calls.
-/

namespace Moo

structure Status where
  counter : Nat
  cursor : Nat
  value : Nat
  register : Option Nat
  skip : Skip
  finished : Bool
  deriving DecidableEq, Repr

def Machine.status (m : Machine) : Status :=
  ⟨m.counter, m.cursor, m.value, m.register, m.skip, m.finished⟩

inductive Reply where
  | nothing
  | steps (count : Nat)
  /-- The state after each step, or the fault that ended the last one. -/
  | rows (rows : List (Except Fault Status))

namespace Host

variable {σ ω : Type} (h : Host σ ω)

/-- Step until the machine has ended, at most `limit` times; how often it was. -/
def run : (limit : Nat) → Act σ ω Nat
  | 0 => pure 0
  | limit + 1 => do
    if ← Act.look (·.finished) then return 0
    h.step
    return (← run limit) + 1

/-- Step until the machine has ended or a step is cut short, at most `limit` times; `rows` holds the
states so far, latest first. -/
def traceFrom (rows : List (Except Fault Status)) :
    (limit : Nat) → Act σ ω (List (Except Fault Status))
  | 0 => fun w => .ok rows.reverse w
  | limit + 1 => fun w =>
    if w.machine.finished then .ok rows.reverse w
    else
      match h.step w with
      | .error e w => .ok (.error e :: rows).reverse w
      | .ok () w => traceFrom (.ok w.machine.status :: rows) limit w

/-- The state after each step until the machine has ended or a step is cut short, for at most
`limit` steps. -/
def trace (limit : Nat) : Act σ ω (List (Except Fault Status)) := h.traceFrom [] limit

end Host

namespace Request

variable {σ : Type}

def jumpsTo (name : Option String) (limit : Option Int) (c : Command) (i : Nat) : Bool :=
  (match name with
    | some name => c.name == name
    | none => true) &&
  (match limit with
    | some limit => decide ((i : Int) < limit)
    | none => true)

def perform (h : Host σ Audience) : Request → Act σ Audience Reply
  | .step => do
    h.step
    return .nothing
  | .run limit => do return .steps (← h.run limit)
  | .trace limit => do return .rows (← h.trace limit)
  | .setValue n => do
    h.setValue n
    return .nothing
  | .setCursor position => do
    h.setCursor position
    return .nothing
  | .setRegister n => do
    h.setRegister n
    return .nothing
  | .call name => do
    match ← Act.look (·.catalogue.named? name) with
    | some c =>
      h.perform c.effect
      return .nothing
    | none => throw .unknownCommand
  | .callAt id => do
    match ← Act.look (·.catalogue.at? id) with
    | some c =>
      h.perform c.effect
      return .nothing
    | none => throw .unknownCommand
  | .jump name limit => do
    Act.change (·.jumpWhere (jumpsTo name limit))
    return .nothing
  | .armSkip => do
    Act.change (·.armSkip)
    return .nothing
  | .badEval info => do
    h.badEval info
    return .nothing
  | .subscribe event tag schedule =>
    match EventKind.named? event with
    | none => throw (.unknownEvent event)
    | some kind => fun ⟨machine, device, audience⟩ =>
      .ok .nothing ⟨machine, device, audience.add ⟨kind, tag, schedule⟩⟩
  | .raise text => throw (.raised text)

end Request

namespace Audience

variable {σ : Type}

def notifyOne (react : List Request → Act σ Audience Unit) (e : Event) (i : Nat) :
    Act σ Audience Unit := fun ⟨machine, device, audience⟩ =>
  let (requests, audience) := audience.call i e
  react requests ⟨machine, device, audience⟩

def notify (react : List Request → Act σ Audience Unit) (e : Event) : Act σ Audience Unit :=
  fun w => (w.audience.subscribed e.kind).forM (notifyOne react e) w

/-- Announce an event where schedules provide for at most `depth` calls. -/
def dispatch (d : Device σ) : (depth : Nat) → Event → Act σ Audience Unit
  | 0 => notify fun _ => pure ()
  | depth + 1 => notify fun requests => requests.forM fun r => do
    let _ ← r.perform ⟨d, dispatch d depth⟩

end Audience

/-- Do what is requested, and all that subscribers request in turn. -/
def Request.fulfil (d : Device σ) (r : Request) : Act σ Audience Reply :=
  fun w => r.perform ⟨d, Audience.dispatch d (w.audience.calls + r.calls)⟩ w

end Moo
