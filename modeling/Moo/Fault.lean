import Moo.Machine.Event
import Moo.Text.Quoted

/-!
# Faults

Programs themselves never fail. What fails is the world around them: input runs out, a device is
asked for a character that does not exist, or whoever drives the machine asks for something unknown
or gives up.
-/

namespace Moo

inductive Supply where
  | character
  | integer
  | console
  deriving DecidableEq, Repr

def Supply.name : Supply → String
  | .character => "character"
  | .integer => "integer"
  | .console => "console"

/-- Why an action was cut short. -/
inductive Fault where
  | exhausted (supply : Supply)
  /-- No character has this code. -/
  | noSuchChar (code : Int)
  /-- A subscription to an event that does not exist. -/
  | unknownEvent (name : String)
  /-- A direct call of a command that the catalogue lacks. -/
  | unknownCommand
  /-- A command that runs a command by its cell was run by another such command. -/
  | endlessRun
  /-- A subscriber gave up. -/
  | raised (text : String)
  deriving DecidableEq, Repr

def Fault.message : Fault → String
  | .exhausted supply => "no more " ++ supply.name ++ " input available"
  | .noSuchChar code => "no character has the code " ++ toString code
  | .unknownEvent name =>
    "unknown event: " ++ Text.quote name ++ " (expected one of " ++
      String.intercalate ", " (EventKind.all.map EventKind.name) ++ ")"
  | .unknownCommand => "no such command"
  | .endlessRun => "a cell names a command that runs it again"
  | .raised text => text

end Moo
