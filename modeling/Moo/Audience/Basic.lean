import Moo.Machine.Event

/-!
# Subscribers

A subscriber waits for one kind of event. Each time it is called it takes down the event and then
does what its schedule holds next: a list of requests to the machine, which may make the machine
announce further events, subscribe further subscribers, or give up. A schedule says how often each
of its lists is done before the next one has its turn. A subscriber whose schedule is used up only
takes down. Any finite behaviour of any set of subscribers is such a set of schedules.
-/

namespace Moo

inductive Request where
  | step
  /-- Step until the machine has ended, at most so many times. -/
  | run (limit : Nat)
  /-- The same with the state after each step; a fault ends it and is kept. -/
  | trace (limit : Nat)
  | setValue (n : Int)
  | setCursor (position : Int)
  | setRegister (n : Option Int)
  /-- Carry out the command of a name, outside a step. -/
  | call (name : String)
  /-- Carry out the command of a number, outside a step. -/
  | callAt (id : Int)
  /-- Jump to the last command of the name, if one is given, below the limit, if one is given. -/
  | jump (name : Option String) (limit : Option Int)
  | armSkip
  | badEval (info : BadEval)
  /-- Subscribe to the event of a name, with a schedule of what to do and how often. -/
  | subscribe (event tag : String) (schedule : List (Nat × List Request))
  | raise (text : String)
  deriving Repr

mutual

/-- How many calls the schedules in a request provide for. -/
def Request.calls : Request → Nat
  | .subscribe _ _ schedule => Request.callsOfSchedule schedule
  | _ => 0

def Request.callsOfList : List Request → Nat
  | [] => 0
  | r :: rest => r.calls + callsOfList rest

/-- How many calls a schedule provides for, those of the schedules within it included. -/
def Request.callsOfSchedule : List (Nat × List Request) → Nat
  | [] => 0
  | (times, requests) :: rest => times * (1 + callsOfList requests) + callsOfSchedule rest

end

/-- What a schedule holds next, and what is left of it then. -/
def Request.next? : List (Nat × List Request) → Option (List Request × List (Nat × List Request))
  | [] => none
  | (0, _) :: rest => next? rest
  | (times + 1, requests) :: rest => some (requests, (times, requests) :: rest)

structure Subscriber where
  kind : EventKind
  tag : String
  schedule : List (Nat × List Request)
  deriving Repr

/-- An event that a subscriber took down. -/
structure Note where
  tag : String
  event : Event
  deriving DecidableEq, Repr

/-- The subscribers in order of subscription, and their notes in order. -/
structure Audience where
  subscribers : Array Subscriber
  notes : Array Note
  deriving Repr

namespace Audience

def empty : Audience := ⟨#[], #[]⟩

def add (s : Subscriber) : Audience → Audience
  | ⟨subscribers, notes⟩ => ⟨subscribers.push s, notes⟩

/-- The positions of the subscribers to a kind of event, in order of subscription. -/
def subscribed (a : Audience) (kind : EventKind) : List Nat :=
  (List.range a.subscribers.size).filter fun i =>
    match a.subscribers[i]? with
    | some s => s.kind = kind
    | none => false

/-- Call a subscriber: it takes down the event, and what its schedule held next is given back. -/
def call (i : Nat) (e : Event) (a : Audience) : List Request × Audience :=
  match a.subscribers[i]? with
  | none => ([], a)
  | some s =>
    let notes := a.notes.push ⟨s.tag, e⟩
    match Request.next? s.schedule with
    | none => ([], { a with notes })
    | some (requests, schedule) =>
      (requests, ⟨a.subscribers.setIfInBounds i { s with schedule }, notes⟩)

def calls (a : Audience) : Nat :=
  a.subscribers.toList.foldl (fun n s => n + Request.callsOfSchedule s.schedule) 0

end Audience

end Moo
