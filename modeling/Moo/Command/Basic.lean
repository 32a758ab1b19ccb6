import Moo.Text.Quoted

/-!
# Commands

A command is a row of a catalogue: its position there is its number, and its effect is one of
twelve, whatever its name. The brand tells the commands of one catalogue from those of another with
the same rows, so two commands are the same exactly when they are equal.
-/

namespace Moo

inductive Effect where
  /-- Go back to the nearest loop start, not counting one right before. -/
  | loopBack
  | left
  | right
  /-- Run the command whose number is in the current cell. -/
  | runCell
  /-- Read a character into a zero cell; write any other cell as a character. -/
  | exchangeChar
  | decrement
  | increment
  /-- On a zero cell, let the next two steps pass. -/
  | skipIfZero
  | clear
  /-- Copy the cell to an empty register; move a full register to the cell. -/
  | swapRegister
  | writeNumber
  | readNumber
  deriving DecidableEq, Repr, Inhabited

/-- A command of the catalogue with this brand. -/
structure Command where
  brand : Nat
  id : Nat
  name : String
  effect : Effect
  deriving DecidableEq, Repr

def Command.shown (c : Command) : String :=
  "Command(" ++ toString c.id ++ ", " ++ Text.quote c.name ++ ")"

end Moo
